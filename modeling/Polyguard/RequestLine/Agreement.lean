import Polyguard.RequestLine.Implementations

/-! Agreement and exactness of the request-line parsers.
Every implementation is brought to one reference: find the line, split it at its
spaces, check the three fields. The line cases follow the first two spaces, and
each scanner is run symbolically over the stretches between them. -/
namespace Polyguard.RequestLineAgreement
open Ascii Slices

/-- A stretch of a line between two separators. -/
def Plain (bytes : List UInt8) : Prop := ∀ b ∈ bytes, b ≠ 0x20 ∧ b ≠ 0x09

/-- The three fields of a line, or why it has not exactly three. -/
def requestFields (line : List UInt8) : Result (List UInt8 × List UInt8 × List UInt8) :=
  if line.contains 0x09 then invalidRequestLine "invalid_spacing"
  else match line.splitOn 0x20 with
    | [method,target,version] =>
      if !method.isEmpty && !target.isEmpty && !version.isEmpty then .ok (method,target,version)
      else invalidRequestLine "invalid_spacing"
    | [method,target] =>
      if !method.isEmpty && !target.isEmpty then .error .unsupportedVersion
      else invalidRequestLine "invalid_spacing"
    | _ => invalidRequestLine "invalid_spacing"

/-- The checks on three non-empty fields, in their order. -/
def checkedFields (method target version : List UInt8) (consumed : Nat) : Result RequestLine :=
  if method.length > 32 || !method.all RequestLineDirect.isTokenByte then .error .invalidMethod
  else do
    RequestLineDirect.checkTarget target
    if version != ascii "HTTP/1.1" then .error .unsupportedVersion
    else .ok ⟨method.map toAsciiLowercase,target,.http11,consumed⟩

/-- What every request-line parser computes. -/
def reference (input : List UInt8) : Result RequestLine := do
  let lineEnd ← RequestLineDirect.findTerminator input
  let (method,target,version) ← requestFields (input.take lineEnd)
  checkedFields method target version (lineEnd + 2)

private theorem getD_range_map {α : Type} (f : Nat → α) (bound index : Nat) (fallback : α) :
    ((List.range bound).map f).getD index fallback = if index < bound then f index else fallback := by
  by_cases inside : index < bound
  · simp [List.getD,inside]
  · simp [List.getD,inside]

theorem methodRules_eq : RequestLineRuleWrappers.methodRules =
    (List.range 128).map fun n => RequestLineDirect.isTokenByte (UInt8.ofNat n) := by decide +kernel

theorem tokenBytes_eq : RequestLineDecisionMachine.tokenBytes =
    (List.range 256).map fun n => RequestLineDirect.isTokenByte (UInt8.ofNat n) := by decide +kernel

theorem isToken_eq (byte : UInt8) : RequestLineState.isToken byte = RequestLineDirect.isTokenByte byte :=
  forall_byte (p := fun b => RequestLineState.isToken b = RequestLineDirect.isTokenByte b)
    (by decide) byte

theorem token_ascii (byte : UInt8) (token : RequestLineDirect.isTokenByte byte) : isAscii byte := by
  revert token
  exact forall_byte (p := fun b => RequestLineDirect.isTokenByte b → isAscii b) (by decide) byte

theorem boundary_table (byte : UInt8) :
    (if isAscii byte then RequestLineRuleWrappers.boundaryRules.getD byte.toNat .data else .data) =
      if byte == 0x0d then RequestLineRuleWrappers.BoundaryRule.carriageReturn
      else if byte == 0x0a then .lineFeed
      else if byte ≤ 8 || (11 ≤ byte && byte ≤ 12) || (14 ≤ byte && byte ≤ 31) || byte == 127 then
        .forbiddenControl
      else .data :=
  forall_byte (p := fun b =>
    (if isAscii b then RequestLineRuleWrappers.boundaryRules.getD b.toNat .data else .data) =
      if b == 0x0d then RequestLineRuleWrappers.BoundaryRule.carriageReturn
      else if b == 0x0a then .lineFeed
      else if b ≤ 8 || (11 ≤ b && b ≤ 12) || (14 ≤ b && b ≤ 31) || b == 127 then .forbiddenControl
      else .data) (by decide) byte

theorem target_table (byte : UInt8) :
    (if isAscii byte then RequestLineRuleWrappers.targetRules.getD byte.toNat .nonVisible else .nonVisible) =
      if byte == 0x23 then RequestLineRuleWrappers.TargetRule.fragment
      else if !(0x21 ≤ byte && byte ≤ 0x7e) then .nonVisible else .allowed :=
  forall_byte (p := fun b =>
    (if isAscii b then RequestLineRuleWrappers.targetRules.getD b.toNat .nonVisible else .nonVisible) =
      if b == 0x23 then RequestLineRuleWrappers.TargetRule.fragment
      else if !(0x21 ≤ b && b ≤ 0x7e) then .nonVisible else .allowed) (by decide) byte

theorem control_tests (byte : UInt8) (notCr : byte ≠ 0x0d) (notLf : byte ≠ 0x0a) :
    (byte ≤ 8 || (11 ≤ byte && byte ≤ 31) || byte == 127) =
      (byte ≤ 8 || (11 ≤ byte && byte ≤ 12) || (14 ≤ byte && byte ≤ 31) || byte == 127) ∧
    ((byte < 0x20 && byte != 0x09) || byte == 127) =
      (byte ≤ 8 || (11 ≤ byte && byte ≤ 12) || (14 ≤ byte && byte ≤ 31) || byte == 127) := by
  revert notCr notLf
  exact forall_byte (p := fun b => b ≠ 0x0d → b ≠ 0x0a →
    (b ≤ 8 || (11 ≤ b && b ≤ 31) || b == 127) =
      (b ≤ 8 || (11 ≤ b && b ≤ 12) || (14 ≤ b && b ≤ 31) || b == 127) ∧
    ((b < 0x20 && b != 0x09) || b == 127) =
      (b ≤ 8 || (11 ≤ b && b ≤ 12) || (14 ≤ b && b ≤ 31) || b == 127)) (by decide) byte

theorem methodRules_getD (byte : UInt8) :
    (isAscii byte && RequestLineRuleWrappers.methodRules.getD byte.toNat false) =
      RequestLineDirect.isTokenByte byte := by
  rw [methodRules_eq,getD_range_map]
  cases token : RequestLineDirect.isTokenByte byte with
  | true =>
    have small := token_ascii byte token
    have bound : byte.toNat < 128 := by simpa [isAscii,UInt8.lt_iff_toNat_lt] using small
    simp [small,bound,token]
  | false => simp [token]

theorem tokenBytes_getD (byte : UInt8) :
    RequestLineDecisionMachine.tokenBytes.getD byte.toNat false = RequestLineDirect.isTokenByte byte := by
  rw [tokenBytes_eq,getD_range_map]
  simp [byte.toNat_lt]

def boundaryResult : RequestLineState.LineBoundary → Result Nat
  | .complete index => .ok index
  | .incomplete => .error .incomplete
  | .overLimit actual => .error (.limitExceeded "request_line_bytes" 8192 actual)
  | .bareEnding => invalidRequestLine "bare_line_ending"
  | .control => invalidRequestLine "control_character"

private theorem state_boundary (suffix : List UInt8) (offset : Nat) :
    boundaryResult (RequestLineState.locateBoundaryFrom offset suffix) =
      RequestLineDirect.findTerminatorFrom offset suffix := by
  induction suffix generalizing offset with
  | nil => rfl
  | cons byte bytes ih =>
    have same := control_tests byte
    have next := ih (offset + 1)
    unfold RequestLineState.locateBoundaryFrom RequestLineDirect.findTerminatorFrom
    grind [boundaryResult,RequestLineState.requestLineLimit,RequestLineDirect.maxLineContent]

private theorem reverse_boundary (suffix : List UInt8) (offset : Nat) (bound : offset ≤ 8192) :
    RequestLineReverseOffsets.requestLineEndFrom offset suffix =
      RequestLineDirect.findTerminatorFrom offset suffix := by
  induction suffix generalizing offset with
  | nil => rfl
  | cons byte bytes ih =>
    have same := control_tests byte
    have next := ih (offset + 1)
    unfold RequestLineReverseOffsets.requestLineEndFrom RequestLineDirect.findTerminatorFrom
    grind [RequestLineReverseOffsets.maxRequestLineBytes,RequestLineDirect.maxLineContent]

private theorem rules_boundary (before suffix : List UInt8) (bound : before.length ≤ 8192) :
    RequestLineRuleWrappers.validateBoundaryFrom (before ++ suffix) before.length
        (suffix.take (8193 - before.length)) =
      (RequestLineDirect.findTerminatorFrom before.length suffix >>= fun lineEnd =>
        .ok ⟨(before ++ suffix).take lineEnd,lineEnd + 2⟩) := by
  induction suffix generalizing before with
  | nil => simp [RequestLineRuleWrappers.validateBoundaryFrom,RequestLineDirect.findTerminatorFrom]
  | cons byte bytes ih =>
    have window : 8193 - before.length = (8192 - before.length) + 1 := by omega
    have following : (before ++ byte :: bytes)[before.length + 1]? = bytes.head? := by
      simp [List.getElem?_append_right,List.head?_eq_getElem?]
    have pair : (slice (before ++ byte :: bytes) before.length (before.length + 2) == [0x0d,0x0a]) =
        (byte == 0x0d && bytes.head? == some 0x0a) := by
      cases bytes <;> simp [slice,List.take_append]
    have table := boundary_table byte
    rw [window,List.take_succ_cons]
    unfold RequestLineRuleWrappers.validateBoundaryFrom RequestLineDirect.findTerminatorFrom
    simp only [table,following,pair,RequestLineRuleWrappers.requestLineLimit,RequestLineDirect.maxLineContent]
    by_cases limit : before.length = 8192
    · simp only [limit,if_true]
      split <;> rfl
    · have next := ih (before ++ [byte]) (by simp; omega)
      simp only [List.append_assoc,List.singleton_append,List.length_append,List.length_singleton] at next
      have shrink : 8193 - (before.length + 1) = 8192 - before.length := by omega
      rw [shrink] at next
      grind

private theorem machine_boundary (suffix : List UInt8) (offset : Nat) (bound : offset ≤ 8192) :
    RequestLineDecisionMachine.requestLineBoundaryFrom
        (((suffix.zip (suffix.tail.map some ++ [none])).zipIdx offset).take (8193 - offset)) =
      RequestLineDirect.findTerminatorFrom offset suffix := by
  induction suffix generalizing offset with
  | nil => simp [RequestLineDecisionMachine.requestLineBoundaryFrom,RequestLineDirect.findTerminatorFrom]
  | cons byte bytes ih =>
    have window : 8193 - offset = (8192 - offset) + 1 := by omega
    have shrink : 8193 - (offset + 1) = 8192 - offset := by omega
    have paired : (byte :: bytes).zip (bytes.map some ++ [none]) =
        (byte,bytes.head?) :: bytes.zip (bytes.tail.map some ++ [none]) := by
      cases bytes <;> simp
    have next := ih (offset + 1)
    rw [shrink] at next
    rw [List.tail_cons,paired,List.zipIdx_cons,window,List.take_succ_cons]
    unfold RequestLineDecisionMachine.requestLineBoundaryFrom RequestLineDirect.findTerminatorFrom
    grind [RequestLineDecisionMachine.maxRequestLineBytes,RequestLineDirect.maxLineContent]

theorem findTerminatorFrom_bound (suffix : List UInt8) (offset lineEnd : Nat) (bound : offset ≤ 8192)
    (found : RequestLineDirect.findTerminatorFrom offset suffix = .ok lineEnd) :
    offset ≤ lineEnd ∧ lineEnd ≤ 8192 ∧ lineEnd + 2 ≤ offset + suffix.length := by
  induction suffix generalizing offset with
  | nil => cases found
  | cons byte bytes ih =>
    have next := ih (offset + 1)
    unfold RequestLineDirect.findTerminatorFrom at found
    cases bytes <;> grind [RequestLineDirect.maxLineContent,invalidRequestLine]

/-- The lines by their first spaces; a tab anywhere is a shape of its own. -/
inductive LineShape : List UInt8 → Prop where
  | tab {before after : List UInt8} : LineShape (before ++ 0x09 :: after)
  | one {word : List UInt8} : Plain word → LineShape word
  | two {method target : List UInt8} : Plain method → Plain target → LineShape (method ++ 0x20 :: target)
  | three {method target version : List UInt8} : Plain method → Plain target → Plain version →
      LineShape (method ++ 0x20 :: (target ++ 0x20 :: version))
  | more {method target version rest : List UInt8} : Plain method → Plain target → Plain version →
      0x09 ∉ rest → LineShape (method ++ 0x20 :: (target ++ 0x20 :: (version ++ 0x20 :: rest)))

private theorem word_split (line : List UInt8) (noTab : 0x09 ∉ line) :
    Plain line ∨ ∃ word rest, line = word ++ 0x20 :: rest ∧ Plain word ∧ 0x09 ∉ rest := by
  rcases first_hit (· == (0x20 : UInt8)) line with miss | ⟨word,hit,rest,rfl,miss,found⟩
  · refine .inl fun b member => ⟨by simpa using miss b member,?_⟩
    rintro rfl
    exact noTab member
  · have space : hit = 0x20 := by simpa using found
    subst space
    refine .inr ⟨word,rest,rfl,fun b member => ⟨by simpa using miss b member,?_⟩,?_⟩
    · rintro rfl
      exact noTab (by simp [member])
    · intro member
      exact noTab (by simp [member])

theorem line_shape (line : List UInt8) : LineShape line := by
  by_cases tabbed : 0x09 ∈ line
  · obtain ⟨before,after,rfl⟩ := List.append_of_mem tabbed
    exact .tab
  · rcases word_split line tabbed with plain | ⟨method,rest,rfl,methodPlain,restTab⟩
    · exact .one plain
    · rcases word_split rest restTab with plain | ⟨target,rest,rfl,targetPlain,restTab⟩
      · exact .two methodPlain plain
      · rcases word_split rest restTab with plain | ⟨version,rest,rfl,versionPlain,restTab⟩
        · exact .three methodPlain targetPlain plain
        · exact .more methodPlain targetPlain versionPlain restTab

private theorem Plain.space {word : List UInt8} (plain : Plain word) : 0x20 ∉ word :=
  fun member => (plain _ member).1 rfl

private theorem Plain.tab {word : List UInt8} (plain : Plain word) : 0x09 ∉ word :=
  fun member => (plain _ member).2 rfl

private theorem Plain.miss {word : List UInt8} (plain : Plain word) : ∀ b ∈ word, (b == 0x20) = false := by
  intro b member
  simpa using (plain b member).1

private theorem first_space {word : List UInt8} (plain : Plain word) (rest : List UInt8) :
    position (· == 0x20) (word ++ 0x20 :: rest) = some word.length :=
  position_append rest plain.miss (by simp)

private theorem fields_tab (before after : List UInt8) :
    requestFields (before ++ 0x09 :: after) = invalidRequestLine "invalid_spacing" := by
  simp [requestFields]

private theorem fields_one {word : List UInt8} (plain : Plain word) :
    requestFields word = invalidRequestLine "invalid_spacing" := by
  simp [requestFields,plain.tab,List.splitOn_eq_singleton plain.space]

private theorem fields_two {method target : List UInt8} (methodPlain : Plain method)
    (targetPlain : Plain target) :
    requestFields (method ++ 0x20 :: target) =
      if method = [] ∨ target = [] then invalidRequestLine "invalid_spacing"
      else .error .unsupportedVersion := by
  have split : (method ++ 0x20 :: target).splitOn 0x20 = [method,target] := by
    rw [List.splitOn_append_cons_self_of_not_mem methodPlain.space,
      List.splitOn_eq_singleton targetPlain.space]
  simp only [requestFields,split]
  grind [Plain.tab]

private theorem fields_three {method target version : List UInt8} (methodPlain : Plain method)
    (targetPlain : Plain target) (versionPlain : Plain version) :
    requestFields (method ++ 0x20 :: (target ++ 0x20 :: version)) =
      if method = [] ∨ target = [] ∨ version = [] then invalidRequestLine "invalid_spacing"
      else .ok (method,target,version) := by
  have split : (method ++ 0x20 :: (target ++ 0x20 :: version)).splitOn 0x20 = [method,target,version] := by
    rw [List.splitOn_append_cons_self_of_not_mem methodPlain.space,
      List.splitOn_append_cons_self_of_not_mem targetPlain.space,
      List.splitOn_eq_singleton versionPlain.space]
  simp only [requestFields,split]
  grind [Plain.tab]

private theorem fields_more {method target version : List UInt8} (rest : List UInt8)
    (methodPlain : Plain method) (targetPlain : Plain target) (versionPlain : Plain version) :
    requestFields (method ++ 0x20 :: (target ++ 0x20 :: (version ++ 0x20 :: rest))) =
      invalidRequestLine "invalid_spacing" := by
  have split : (method ++ 0x20 :: (target ++ 0x20 :: (version ++ 0x20 :: rest))).splitOn 0x20 =
      method :: target :: version :: rest.splitOn 0x20 := by
    rw [List.splitOn_append_cons_self_of_not_mem methodPlain.space,
      List.splitOn_append_cons_self_of_not_mem targetPlain.space,
      List.splitOn_append_cons_self_of_not_mem versionPlain.space]
  have inhabited : rest.splitOn 0x20 ≠ [] := List.splitOn_ne_nil _ _
  simp only [requestFields,split]
  cases remaining : rest.splitOn (0x20 : UInt8) with
  | nil => exact absurd remaining inhabited
  | cons word words => split <;> rfl

theorem requestFields_ok {line method target version : List UInt8}
    (ok : requestFields line = .ok (method,target,version)) :
    line = method ++ 0x20 :: (target ++ 0x20 :: version) ∧ method ≠ [] ∧ target ≠ [] ∧ version ≠ [] ∧
      Plain method ∧ Plain target ∧ Plain version := by
  cases line_shape line with
  | tab => rw [fields_tab] at ok; cases ok
  | one plain => rw [fields_one plain] at ok; cases ok
  | two methodPlain targetPlain =>
    rw [fields_two methodPlain targetPlain] at ok
    split at ok <;> cases ok
  | three methodPlain targetPlain versionPlain =>
    rw [fields_three methodPlain targetPlain versionPlain] at ok
    split at ok
    · cases ok
    · rename_i filled
      cases ok
      simp only [not_or] at filled
      exact ⟨rfl,filled.1,filled.2.1,filled.2.2,methodPlain,targetPlain,versionPlain⟩
  | more methodPlain targetPlain versionPlain =>
    rw [fields_more _ methodPlain targetPlain versionPlain] at ok
    cases ok

def foundFault : Option UInt8 → Result Unit
  | none => .ok ()
  | some byte =>
    if byte == 0x23 then invalidTarget "fragment_not_allowed" else invalidTarget "non_visible_ascii"

private theorem state_target (target : List UInt8) :
    foundFault (target.find? fun byte => byte == 0x23 || !isAsciiGraphic byte) =
      RequestLineDirect.checkTarget target := by
  induction target with
  | nil => rfl
  | cons byte bytes ih =>
    unfold RequestLineDirect.checkTarget
    rw [List.find?_cons]
    grind [foundFault,isAsciiGraphic]

private theorem rules_target (target : List UInt8) :
    RequestLineRuleWrappers.checkTarget target = RequestLineDirect.checkTarget target := by
  induction target with
  | nil => rfl
  | cons byte bytes ih =>
    have table := target_table byte
    unfold RequestLineRuleWrappers.checkTarget RequestLineDirect.checkTarget
    rw [table,ih]
    grind

def recordedFault : RequestLineDecisionMachine.TargetFault → Result Unit
  | .none => .ok ()
  | .fragment => invalidTarget "fragment_not_allowed"
  | .nonVisible => invalidTarget "non_visible_ascii"

private theorem fault_absorbing (bytes : List UInt8) (fault : RequestLineDecisionMachine.TargetFault)
    (raised : fault ≠ .none) : bytes.foldl RequestLineDecisionMachine.nextTargetFault fault = fault := by
  induction bytes with
  | nil => rfl
  | cons byte bytes ih =>
    have kept : RequestLineDecisionMachine.nextTargetFault fault byte = fault := by
      cases fault with
      | none => exact absurd rfl raised
      | fragment => rfl
      | nonVisible => rfl
    rw [List.foldl_cons,kept,ih]

private theorem machine_target (target : List UInt8) :
    recordedFault (target.foldl RequestLineDecisionMachine.nextTargetFault .none) =
      RequestLineDirect.checkTarget target := by
  induction target with
  | nil => rfl
  | cons byte bytes ih =>
    have fragment := fault_absorbing bytes .fragment (by simp)
    have nonVisible := fault_absorbing bytes .nonVisible (by simp)
    have graphic : (decide (0x21 ≤ byte) && decide (byte ≤ 0x7e)) = isAsciiGraphic byte := rfl
    unfold RequestLineDirect.checkTarget
    rw [List.foldl_cons,graphic,← ih]
    simp only [RequestLineDecisionMachine.nextTargetFault]
    split
    · rw [fragment]; rfl
    · split
      · rw [nonVisible]; rfl
      · rfl

theorem checkTarget_ok (target : List UInt8) :
    RequestLineDirect.checkTarget target = .ok () ↔ ∀ b ∈ target, isAsciiGraphic b ∧ b ≠ 0x23 := by
  induction target with
  | nil => simp [RequestLineDirect.checkTarget]
  | cons byte bytes ih =>
    have graphic : (decide (0x21 ≤ byte) && decide (byte ≤ 0x7e)) = isAsciiGraphic byte := rfl
    unfold RequestLineDirect.checkTarget
    rw [graphic]
    grind [invalidTarget]

theorem graphic_ascii {byte : UInt8} (graphic : isAsciiGraphic byte) : isAscii byte := by
  revert graphic
  exact forall_byte (p := fun b => isAsciiGraphic b → isAscii b) (by decide) byte

private theorem lowercase_token {method : List UInt8} (tokens : method.all RequestLineDirect.isTokenByte) :
    collectChars (method.map toAsciiLowercase) = method.map toAsciiLowercase := by
  apply collectChars_map_ascii
  intro b member
  exact toAsciiLowercase_ascii (token_ascii b (List.all_eq_true.mp tokens b member))

private theorem direct_reference (input : List UInt8) :
    RequestLineDirect.parseRequestLine input = reference input := by
  unfold RequestLineDirect.parseRequestLine reference
  cases found : RequestLineDirect.findTerminator input with
  | error error => rfl
  | ok lineEnd =>
    obtain ⟨_,limit,inside⟩ := findTerminatorFrom_bound input 0 lineEnd (by omega) found
    have length : (input.take lineEnd).length = lineEnd := by simp; omega
    simp only [bind_ok]
    generalize input.take lineEnd = line at length ⊢
    cases line_shape line with
    | tab => simp [fields_tab,invalidRequestLine]
    | one plain =>
      simp only [fields_one plain,position_none plain.miss]
      simp [plain.tab,invalidRequestLine]
    | @two method target methodPlain targetPlain =>
      have noTab : (method ++ 0x20 :: target).contains 0x09 = false := by
        simp [methodPlain.tab,targetPlain.tab]
      have size : method.length + (target.length + 1) = lineEnd := by simpa using length
      simp only [fields_two methodPlain targetPlain,first_space methodPlain,drop_hit,
        position_none targetPlain.miss,noTab]
      grind [List.length_eq_zero_iff]
    | @three method target version methodPlain targetPlain versionPlain =>
      have noTab : (method ++ 0x20 :: (target ++ 0x20 :: version)).contains 0x09 = false := by
        simp [methodPlain.tab,targetPlain.tab,versionPlain.tab]
      have size : method.length + (target.length + (version.length + 1) + 1) = lineEnd := by simpa using length
      simp only [fields_three methodPlain targetPlain versionPlain,first_space methodPlain,drop_hit,
        first_space targetPlain,drop_second_hit,slice_between,take_hit,noTab]
      by_cases filled : method = [] ∨ target = [] ∨ version = []
      · grind [List.length_eq_zero_iff]
      · obtain ⟨methodSome,targetSome,versionSome⟩ := by simpa only [not_or] using filled
        simp only [filled,if_false,bind_ok,checkedFields]
        grind [List.length_eq_zero_iff,Plain.space,lowercase_token,RequestLineDirect.maxMethodBytes,
          RequestLineDirect.maxLineContent]
    | @more method target version rest methodPlain targetPlain versionPlain noTab =>
      simp only [fields_more rest methodPlain targetPlain versionPlain,first_space methodPlain,drop_hit,
        first_space targetPlain,drop_second_hit]
      simp [invalidRequestLine]

private theorem rules_grammar (line : List UInt8) (consumed : Nat) :
    RequestLineRuleWrappers.applyGrammar ⟨line,consumed⟩ =
      (requestFields line >>= fun (method,target,version) => .ok ⟨method,target,version,consumed⟩) := by
  unfold RequestLineRuleWrappers.applyGrammar requestFields
  grind

private theorem method_guard {method : List UInt8} (filled : method ≠ []) :
    (!(decide (1 ≤ method.length) && decide (method.length ≤ 32)) ||
        !method.all RequestLineDirect.isTokenByte) =
      (decide (method.length > 32) || !method.all RequestLineDirect.isTokenByte) := by
  have positive : 1 ≤ method.length := List.length_pos_iff.mpr filled
  by_cases long : method.length > 32
  · simp [long]
  · simp [positive,long,Nat.not_lt.mp long]

private theorem rules_reference (input : List UInt8) :
    RequestLineRuleWrappers.parseRequestLine input = reference input := by
  have boundary := rules_boundary [] input (by simp)
  simp only [List.nil_append,List.length_nil,Nat.sub_zero] at boundary
  unfold RequestLineRuleWrappers.parseRequestLine RequestLineRuleWrappers.validateBoundary reference
    RequestLineDirect.findTerminator
  rw [show RequestLineRuleWrappers.requestLineLimit + 1 = 8193 from rfl,boundary]
  cases found : RequestLineDirect.findTerminatorFrom 0 input with
  | error error => rfl
  | ok lineEnd =>
    obtain ⟨_,limit,inside⟩ := findTerminatorFrom_bound input 0 lineEnd (by omega) found
    simp only [bind_ok,rules_grammar]
    cases fields : requestFields (input.take lineEnd) with
    | error error => rfl
    | ok words =>
      obtain ⟨method,target,version⟩ := words
      obtain ⟨same,methodSome,targetSome,_⟩ := requestFields_ok fields
      have size := congrArg List.length same
      simp only [List.length_take,List.length_append,List.length_cons] at size
      have methodLength := List.length_pos_iff.mpr methodSome
      have targetBound : ¬ 8192 < target.length := by omega
      have guard := method_guard methodSome
      have table : (method.all fun byte =>
          isAscii byte && RequestLineRuleWrappers.methodRules.getD byte.toNat false) =
          method.all RequestLineDirect.isTokenByte := by simp only [methodRules_getD]
      have measured : (target.isEmpty || decide (target.length > 8192)) = false := by
        simp [targetSome,Nat.not_lt.mp targetBound]
      simp only [bind_ok,RequestLineRuleWrappers.validMethod,RequestLineRuleWrappers.validTarget,
        RequestLineRuleWrappers.validateVersion,checkedFields,table,rules_target]
      rw [show RequestLineRuleWrappers.methodLimit = 32 from rfl,guard,
        show RequestLineRuleWrappers.requestLineLimit = 8192 from rfl,measured]
      split
      · rfl
      · cases RequestLineDirect.checkTarget target with
        | error error => rfl
        | ok done => by_cases versionOk : version = ascii "HTTP/1.1" <;> simp [versionOk]

private theorem fold_plain {word : List UInt8} (plain : Plain word) (line : List UInt8) (offset : Nat)
    (state : RequestLineState.PartState) :
    (word.zipIdx offset).foldl (RequestLineState.partStep line) state = state := by
  induction word generalizing offset with
  | nil => rfl
  | cons byte bytes ih =>
    obtain ⟨notSpace,notTab⟩ := plain byte (by simp)
    have kept : RequestLineState.partStep line state (byte,offset) = state := by
      cases state <;> simp [RequestLineState.partStep,notSpace,notTab]
    rw [List.zipIdx_cons,List.foldl_cons,kept,ih fun b member => plain b (by simp [member])]

private theorem fold_invalid (line word : List UInt8) (offset : Nat) :
    (word.zipIdx offset).foldl (RequestLineState.partStep line) .invalid = .invalid := by
  induction word generalizing offset with
  | nil => rfl
  | cons byte bytes ih =>
    have kept : RequestLineState.partStep line .invalid (byte,offset) = .invalid := by
      simp [RequestLineState.partStep]
    rw [List.zipIdx_cons,List.foldl_cons,kept,ih]

def partsResult : RequestLineState.RequestParts → Result (List UInt8 × List UInt8 × List UInt8)
  | .complete method target version => .ok (method,target,version)
  | .missingVersion => .error .unsupportedVersion
  | .invalidSpacing => invalidRequestLine "invalid_spacing"

private theorem before_second {method target : List UInt8} (targetPlain : Plain target) (rest : List UInt8) :
    ((method ++ 0x20 :: (target ++ 0x20 :: rest))[method.length + 1 + target.length - 1]? == some 0x20) =
      target.isEmpty := by
  rcases List.eq_nil_or_concat' target with rfl | ⟨init,last,rfl⟩
  · simp
  · have notSpace : last ≠ 0x20 := (targetPlain last (by simp)).1
    have index : method.length + 1 + (init ++ [last]).length - 1 = method.length + (init.length + 1) := by
      simp; omega
    rw [index,List.getElem?_append_right (by omega)]
    simp [beq_eq_false_iff_ne.mpr notSpace]

private theorem state_partition (line : List UInt8) :
    partsResult (RequestLineState.partition line) = requestFields line := by
  unfold RequestLineState.partition
  cases line_shape line with
  | @tab before after =>
    rw [fields_tab,List.zipIdx_append,List.foldl_append,List.zipIdx_cons,List.foldl_cons]
    have broken (state : RequestLineState.PartState) (offset : Nat) :
        RequestLineState.partStep (before ++ 0x09 :: after) state (0x09,offset) = .invalid := by
      simp [RequestLineState.partStep]
    rw [broken,fold_invalid]
    rfl
  | one plain =>
    rw [fields_one plain,fold_plain plain]
    rfl
  | @two method target methodPlain targetPlain =>
    rw [fields_two methodPlain targetPlain,List.zipIdx_append,List.foldl_append,fold_plain methodPlain,
      List.zipIdx_cons,List.foldl_cons]
    by_cases empty : method = []
    · subst empty
      simp [RequestLineState.partStep,fold_invalid,partsResult]
    · have moved : RequestLineState.partStep (method ++ 0x20 :: target) .method (0x20,0 + method.length) =
          .target method.length := by simp [RequestLineState.partStep,empty]
      rw [moved,fold_plain targetPlain]
      by_cases missing : target = []
      · simp [missing,partsResult]
      · have long := List.length_pos_iff.mpr missing
        simp [missing,empty,partsResult,long]
  | @three method target version methodPlain targetPlain versionPlain =>
    rw [fields_three methodPlain targetPlain versionPlain,List.zipIdx_append,List.foldl_append,
      fold_plain methodPlain,List.zipIdx_cons,List.foldl_cons]
    by_cases empty : method = []
    · subst empty
      simp [RequestLineState.partStep,fold_invalid,partsResult]
    · have moved : RequestLineState.partStep (method ++ 0x20 :: (target ++ 0x20 :: version)) .method
          (0x20,0 + method.length) = .target method.length := by simp [RequestLineState.partStep,empty]
      rw [moved,List.zipIdx_append,List.foldl_append,fold_plain targetPlain,List.zipIdx_cons,List.foldl_cons]
      have second : RequestLineState.partStep (method ++ 0x20 :: (target ++ 0x20 :: version))
          (.target method.length) (0x20,0 + method.length + 1 + target.length) =
          if target.isEmpty then .invalid
          else .version method.length (method.length + 1 + target.length) := by
        simp only [RequestLineState.partStep,Nat.zero_add,before_second targetPlain]
        simp
      rw [second]
      by_cases missing : target = []
      · simp [missing,fold_invalid,partsResult]
      · rw [List.isEmpty_eq_false_iff.mpr missing,if_neg (by simp),fold_plain versionPlain]
        simp only [slice_between,drop_second_hit,slice_zero,take_hit]
        have within : method.length + 1 + target.length + 1 <
            (method ++ 0x20 :: (target ++ 0x20 :: version)).length ↔ version ≠ [] := by
          rw [← List.length_pos_iff]
          simp only [List.length_append,List.length_cons]
          omega
        by_cases final : version = []
        · rw [if_neg (by rw [within]; simpa using final)]
          simp [final,partsResult]
        · rw [if_pos (within.mpr final)]
          simp [missing,empty,final,partsResult]
  | @more method target version rest methodPlain targetPlain versionPlain noTab =>
    rw [fields_more rest methodPlain targetPlain versionPlain,List.zipIdx_append,List.foldl_append,
      fold_plain methodPlain,List.zipIdx_cons,List.foldl_cons]
    by_cases empty : method = []
    · subst empty
      simp [RequestLineState.partStep,fold_invalid,partsResult]
    · have moved : RequestLineState.partStep
          (method ++ 0x20 :: (target ++ 0x20 :: (version ++ 0x20 :: rest))) .method
          (0x20,0 + method.length) = .target method.length := by simp [RequestLineState.partStep,empty]
      rw [moved,List.zipIdx_append,List.foldl_append,fold_plain targetPlain,List.zipIdx_cons,List.foldl_cons]
      have second : RequestLineState.partStep
          (method ++ 0x20 :: (target ++ 0x20 :: (version ++ 0x20 :: rest)))
          (.target method.length) (0x20,0 + method.length + 1 + target.length) =
          if target.isEmpty then .invalid
          else .version method.length (method.length + 1 + target.length) := by
        simp only [RequestLineState.partStep,Nat.zero_add,before_second targetPlain]
        simp
      rw [second]
      by_cases missing : target = []
      · simp [missing,fold_invalid,partsResult]
      · rw [List.isEmpty_eq_false_iff.mpr missing,if_neg (by simp),List.zipIdx_append,List.foldl_append,
          fold_plain versionPlain,List.zipIdx_cons,List.foldl_cons]
        simp [RequestLineState.partStep,fold_invalid,partsResult]

private theorem state_reference (input : List UInt8) :
    RequestLineState.parseRequestLine input = reference input := by
  have boundary : boundaryResult (RequestLineState.locateBoundary input) =
    RequestLineDirect.findTerminator input := state_boundary input 0
  unfold RequestLineState.parseRequestLine reference
  rw [← boundary]
  cases located : RequestLineState.locateBoundary input with
  | incomplete => rfl
  | overLimit actual => rfl
  | bareEnding => rfl
  | control => rfl
  | complete lineEnd =>
    simp only [boundaryResult,bind_ok,slice_zero,← state_partition]
    cases parted : RequestLineState.partition (input.take lineEnd) with
    | missingVersion => rfl
    | invalidSpacing => rfl
    | complete method target version =>
      have fields : requestFields (input.take lineEnd) = .ok (method,target,version) := by
        rw [← state_partition,parted]; rfl
      obtain ⟨_,methodSome,targetSome,_⟩ := requestFields_ok fields
      have tokens : method.all RequestLineState.isToken = method.all RequestLineDirect.isTokenByte := by
        simp only [funext isToken_eq]
      have occupied : target.isEmpty = false := List.isEmpty_eq_false_iff.mpr targetSome
      simp only [partsResult,bind_ok,checkedFields,← state_target,tokens,occupied]
      rw [show RequestLineState.methodLimit = 32 from rfl,method_guard methodSome]
      split
      · rfl
      · cases target.find? fun byte => byte == 0x23 || !isAsciiGraphic byte with
        | none => rfl
        | some byte =>
          by_cases fragment : byte = 0x23 <;> simp [foundFault,fragment]

private theorem machine_method {word : List UInt8} (plain : Plain word) (offset length : Nat)
    (isToken : Bool) :
    (word.zipIdx offset).foldlM RequestLineDecisionMachine.transition (.method length isToken) =
      .ok (.method (length + word.length) (isToken && word.all RequestLineDirect.isTokenByte)) := by
  induction word generalizing offset length isToken with
  | nil => simp [pure,Except.pure]
  | cons byte bytes ih =>
    obtain ⟨notSpace,notTab⟩ := plain byte (by simp)
    have step : RequestLineDecisionMachine.transition (.method length isToken) (byte,offset) =
        .ok (.method (length + 1) (isToken && RequestLineDirect.isTokenByte byte)) := by
      simp only [RequestLineDecisionMachine.transition,tokenBytes_getD]
      simp [notSpace,notTab]
    rw [List.zipIdx_cons,List.foldlM_cons,step]
    change (bytes.zipIdx (offset + 1)).foldlM RequestLineDecisionMachine.transition _ = _
    rw [ih fun b member => plain b (by simp [member])]
    simp [Nat.add_assoc,Nat.add_comm 1,Bool.and_assoc]

private theorem machine_word {word : List UInt8} (plain : Plain word) (offset methodEnd length : Nat)
    (isToken : Bool) (fault : RequestLineDecisionMachine.TargetFault) :
    (word.zipIdx offset).foldlM RequestLineDecisionMachine.transition
        (.target methodEnd isToken length fault) =
      .ok (.target methodEnd isToken (length + word.length)
        (word.foldl RequestLineDecisionMachine.nextTargetFault fault)) := by
  induction word generalizing offset length fault with
  | nil => simp [pure,Except.pure]
  | cons byte bytes ih =>
    obtain ⟨notSpace,notTab⟩ := plain byte (by simp)
    have step : RequestLineDecisionMachine.transition (.target methodEnd isToken length fault)
        (byte,offset) = .ok (.target methodEnd isToken (length + 1)
          (RequestLineDecisionMachine.nextTargetFault fault byte)) := by
      simp [RequestLineDecisionMachine.transition,notSpace,notTab]
    rw [List.zipIdx_cons,List.foldlM_cons,step]
    change (bytes.zipIdx (offset + 1)).foldlM RequestLineDecisionMachine.transition _ = _
    rw [ih fun b member => plain b (by simp [member])]
    simp [Nat.add_assoc,Nat.add_comm 1]

private theorem prefix_step (expected : List UInt8) (index : Nat) (byte : UInt8) (bytes : List UInt8) :
    ((expected[index]? == some byte) && bytes.isPrefixOf (expected.drop (index + 1))) =
      (byte :: bytes).isPrefixOf (expected.drop index) := by
  cases rest : expected.drop index with
  | nil =>
    have short : expected.length ≤ index := List.drop_eq_nil_iff.mp rest
    simp [short]
  | cons wanted others =>
    have here : expected[index]? = some wanted := by
      rw [← List.head?_drop,rest]; rfl
    have next : expected.drop (index + 1) = others := by
      rw [← List.drop_drop,rest]; rfl
    rw [here,next]
    simp [List.isPrefixOf,Bool.beq_comm]

private theorem machine_version {word : List UInt8} (plain : Plain word) (offset : Nat)
    (record : RequestLineDecisionMachine.SemanticRecord) :
    (word.zipIdx offset).foldlM RequestLineDecisionMachine.transition (.version record) =
      .ok (.version { record with
        versionLen := record.versionLen + word.length
        versionMatches := record.versionMatches &&
          word.isPrefixOf (RequestLineDecisionMachine.http11Bytes.drop record.versionLen) }) := by
  induction word generalizing offset record with
  | nil => simp [pure,Except.pure]
  | cons byte bytes ih =>
    obtain ⟨notSpace,notTab⟩ := plain byte (by simp)
    have step : RequestLineDecisionMachine.transition (.version record) (byte,offset) =
        .ok (.version { record with
          versionMatches := record.versionMatches &&
            RequestLineDecisionMachine.http11Bytes[record.versionLen]? == some byte
          versionLen := record.versionLen + 1 }) := by
      simp [RequestLineDecisionMachine.transition,notSpace,notTab]
    rw [List.zipIdx_cons,List.foldlM_cons,step]
    change (bytes.zipIdx (offset + 1)).foldlM RequestLineDecisionMachine.transition _ = _
    rw [ih fun b member => plain b (by simp [member]),← prefix_step]
    simp [Nat.add_assoc,Nat.add_comm 1,Bool.and_assoc]

private theorem version_exact (version : List UInt8) :
    (decide (version.length ≠ RequestLineDecisionMachine.http11Bytes.length) ||
        !version.isPrefixOf RequestLineDecisionMachine.http11Bytes) =
      (version != ascii "HTTP/1.1") := by
  by_cases same : version = ascii "HTTP/1.1"
  · subst same
    decide
  · have different : (version != ascii "HTTP/1.1") = true := by simpa using same
    rw [different]
    by_cases length : version.length = RequestLineDecisionMachine.http11Bytes.length
    · have notPrefix : version.isPrefixOf RequestLineDecisionMachine.http11Bytes = false := by
        rw [Bool.eq_false_iff]
        intro found
        exact same ((List.isPrefixOf_iff_prefix.mp found).eq_of_length length)
      simp [notPrefix]
    · simp [length]

private theorem machine_tab (before after : List UInt8) (offset : Nat)
    (machine : RequestLineDecisionMachine.Machine) :
    ((before ++ 0x09 :: after).zipIdx offset).foldlM RequestLineDecisionMachine.transition machine =
      .error .invalidSpacing := by
  induction before generalizing offset machine with
  | nil =>
    rw [List.nil_append,List.zipIdx_cons,List.foldlM_cons]
    rfl
  | cons byte before ih =>
    rw [List.cons_append,List.zipIdx_cons,List.foldlM_cons]
    cases RequestLineDecisionMachine.transition machine (byte,offset) with
    | error failure => cases failure; rfl
    | ok machine => exact ih (offset + 1) machine

/-- What the machine records on a line with three fields. -/
def recorded (method target version : List UInt8) : RequestLineDecisionMachine.SemanticRecord :=
  ⟨method.length,method.all RequestLineDirect.isTokenByte,method.length + 1 + target.length,
    target.foldl RequestLineDecisionMachine.nextTargetFault .none,version.length,
    version.isPrefixOf RequestLineDecisionMachine.http11Bytes⟩

private theorem machine_first {method : List UInt8} (plain : Plain method) (rest : List UInt8) :
    (method ++ 0x20 :: rest).zipIdx.foldlM RequestLineDecisionMachine.transition (.method 0 true) =
      if method = [] then .error .invalidSpacing
      else (rest.zipIdx (method.length + 1)).foldlM RequestLineDecisionMachine.transition
        (.target method.length (method.all RequestLineDirect.isTokenByte) 0 .none) := by
  rw [List.zipIdx_append,List.foldlM_append,machine_method plain,List.zipIdx_cons,Nat.zero_add]
  by_cases empty : method = []
  · subst empty
    rfl
  · have step : RequestLineDecisionMachine.transition
        (.method method.length (true && method.all RequestLineDirect.isTokenByte)) (0x20,method.length) =
        .ok (.target method.length (method.all RequestLineDirect.isTokenByte) 0 .none) := by
      simp [RequestLineDecisionMachine.transition,empty]
    rw [if_neg empty]
    change (((0x20,method.length) :: rest.zipIdx (method.length + 1)).foldlM
      RequestLineDecisionMachine.transition _) = _
    rw [List.foldlM_cons,step]
    rfl

private theorem machine_second {target : List UInt8} (plain : Plain target) (offset methodEnd : Nat)
    (isToken : Bool) (rest : List UInt8) :
    ((target ++ 0x20 :: rest).zipIdx offset).foldlM RequestLineDecisionMachine.transition
        (.target methodEnd isToken 0 .none) =
      if target = [] then .error .invalidSpacing
      else (rest.zipIdx (offset + target.length + 1)).foldlM RequestLineDecisionMachine.transition
        (.version ⟨methodEnd,isToken,offset + target.length,
          target.foldl RequestLineDecisionMachine.nextTargetFault .none,0,true⟩) := by
  rw [List.zipIdx_append,List.foldlM_append,machine_word plain,List.zipIdx_cons,Nat.zero_add]
  by_cases empty : target = []
  · subst empty
    rfl
  · have step : RequestLineDecisionMachine.transition (.target methodEnd isToken target.length
          (target.foldl RequestLineDecisionMachine.nextTargetFault .none)) (0x20,offset + target.length) =
        .ok (.version ⟨methodEnd,isToken,offset + target.length,
          target.foldl RequestLineDecisionMachine.nextTargetFault .none,0,true⟩) := by
      simp [RequestLineDecisionMachine.transition,empty]
    rw [if_neg empty]
    change (((0x20,offset + target.length) :: rest.zipIdx (offset + target.length + 1)).foldlM
      RequestLineDecisionMachine.transition _) = _
    rw [List.foldlM_cons,step]
    rfl

private theorem machine_run (line : List UInt8) :
    RequestLineDecisionMachine.runDecisionMachine line =
      (requestFields line >>= fun (method,target,version) => .ok (recorded method target version)) := by
  unfold RequestLineDecisionMachine.runDecisionMachine
  cases line_shape line with
  | tab => rw [machine_tab,fields_tab]; rfl
  | one plain => rw [machine_method plain,fields_one plain]; rfl
  | @two method target methodPlain targetPlain =>
    rw [machine_first methodPlain,fields_two methodPlain targetPlain]
    by_cases empty : method = []
    · simp [empty]
    · rw [if_neg empty,machine_word targetPlain]
      by_cases missing : target = [] <;> simp [empty,missing]
  | @three method target version methodPlain targetPlain versionPlain =>
    rw [machine_first methodPlain,fields_three methodPlain targetPlain versionPlain]
    by_cases empty : method = []
    · simp [empty]
    · rw [if_neg empty,machine_second targetPlain]
      by_cases missing : target = []
      · simp [missing]
      · rw [if_neg missing,machine_version versionPlain]
        by_cases final : version = [] <;> simp [empty,missing,final,recorded]
  | @more method target version rest methodPlain targetPlain versionPlain noTab =>
    rw [machine_first methodPlain,fields_more rest methodPlain targetPlain versionPlain]
    by_cases empty : method = []
    · simp [empty]
    · rw [if_neg empty,machine_second targetPlain]
      by_cases missing : target = []
      · simp [missing]
      · rw [if_neg missing,List.zipIdx_append,List.foldlM_append,machine_version versionPlain,
          List.zipIdx_cons]
        rfl

private theorem machine_reference (input : List UInt8) :
    RequestLineDecisionMachine.parseRequestLine input = reference input := by
  have boundary : RequestLineDecisionMachine.requestLineBoundary input =
    RequestLineDirect.findTerminator input := machine_boundary input 0 (by omega)
  unfold RequestLineDecisionMachine.parseRequestLine reference
  rw [boundary]
  cases found : RequestLineDirect.findTerminator input with
  | error error => rfl
  | ok lineEnd =>
    simp only [bind_ok,machine_run]
    cases fields : requestFields (input.take lineEnd) with
    | error error => rfl
    | ok words =>
      obtain ⟨method,target,version⟩ := words
      obtain ⟨same,_⟩ := requestFields_ok fields
      rw [same]
      simp only [bind_ok,recorded,checkedFields,take_hit,slice_between,version_exact,← machine_target]
      by_cases tokens : method.all RequestLineDirect.isTokenByte
      · rw [lowercase_token tokens]
        cases target.foldl RequestLineDecisionMachine.nextTargetFault .none <;> rfl
      · simp [Bool.not_eq_true] at tokens
        simp [tokens]

private theorem reverse_plain {word : List UInt8} (plain : Plain word) (offset : Nat)
    (spaces : RequestLineReverseOffsets.Spaces) :
    (word.zipIdx offset).reverse.foldlM RequestLineReverseOffsets.observeReversed spaces = .ok spaces := by
  induction word generalizing offset with
  | nil => rfl
  | cons byte bytes ih =>
    obtain ⟨notSpace,notTab⟩ := plain byte (by simp)
    rw [List.zipIdx_cons,List.reverse_cons,List.foldlM_append,
      ih fun b member => plain b (by simp [member])]
    simp [RequestLineReverseOffsets.observeReversed,notSpace,notTab]

private theorem reverse_error (observed : List (UInt8 × Nat)) (spaces : RequestLineReverseOffsets.Spaces)
    (tabbed : ∃ offset, (0x09,offset) ∈ observed) :
    observed.foldlM RequestLineReverseOffsets.observeReversed spaces =
      invalidRequestLine "invalid_spacing" := by
  induction observed generalizing spaces with
  | nil => simp at tabbed
  | cons first observed ih =>
    obtain ⟨byte,offset⟩ := first
    rw [List.foldlM_cons]
    by_cases tab : byte = 0x09
    · simp [RequestLineReverseOffsets.observeReversed,tab]
    · have rest : ∃ offset, (0x09,offset) ∈ observed := by
        obtain ⟨found,member⟩ := tabbed
        rcases List.mem_cons.mp member with head | tail
        · exact absurd (congrArg Prod.fst head).symm tab
        · exact ⟨found,tail⟩
      by_cases space : byte = 0x20
      · simp [RequestLineReverseOffsets.observeReversed,space,ih _ rest]
      · simp [RequestLineReverseOffsets.observeReversed,space,tab,ih _ rest]

private theorem reverse_count (observed : List (UInt8 × Nat)) (spaces : RequestLineReverseOffsets.Spaces)
    (noTab : ∀ entry ∈ observed, entry.1 ≠ 0x09) :
    ∃ counted, observed.foldlM RequestLineReverseOffsets.observeReversed spaces = .ok counted ∧
      spaces.count ≤ counted.count := by
  induction observed generalizing spaces with
  | nil => exact ⟨spaces,rfl,Nat.le_refl _⟩
  | cons first observed ih =>
    obtain ⟨byte,offset⟩ := first
    have notTab : byte ≠ 0x09 := noTab (byte,offset) (by simp)
    have rest : ∀ entry ∈ observed, entry.1 ≠ 0x09 := fun entry member => noTab entry (by simp [member])
    rw [List.foldlM_cons]
    by_cases space : byte = 0x20
    · obtain ⟨counted,ran,more⟩ := ih ⟨spaces.count + 1,offset,
        if spaces.count + 1 = 1 then offset else spaces.right⟩ rest
      refine ⟨counted,?_,by simp only at more; omega⟩
      simpa [RequestLineReverseOffsets.observeReversed,space] using ran
    · obtain ⟨counted,ran,more⟩ := ih spaces rest
      exact ⟨counted,by simpa [RequestLineReverseOffsets.observeReversed,space,notTab] using ran,more⟩

private theorem reverse_space (spaces : RequestLineReverseOffsets.Spaces) (offset : Nat) :
    RequestLineReverseOffsets.observeReversed spaces (0x20,offset) =
      .ok ⟨spaces.count + 1,offset,if spaces.count + 1 = 1 then offset else spaces.right⟩ := by
  simp [RequestLineReverseOffsets.observeReversed]

private theorem reverse_word {word : List UInt8} (plain : Plain word) (rest : List UInt8) (offset : Nat)
    (spaces : RequestLineReverseOffsets.Spaces) :
    ((word ++ 0x20 :: rest).zipIdx offset).reverse.foldlM RequestLineReverseOffsets.observeReversed spaces =
      ((rest.zipIdx (offset + word.length + 1)).reverse.foldlM RequestLineReverseOffsets.observeReversed
        spaces >>= fun counted =>
          .ok ⟨counted.count + 1,offset + word.length,
            if counted.count + 1 = 1 then offset + word.length else counted.right⟩) := by
  rw [List.zipIdx_append,List.reverse_append,List.foldlM_append,List.zipIdx_cons,List.reverse_cons,
    List.foldlM_append]
  cases (rest.zipIdx (offset + word.length + 1)).reverse.foldlM
      RequestLineReverseOffsets.observeReversed spaces with
  | error error => rfl
  | ok counted => simp [reverse_space,reverse_plain plain]

private theorem reverse_method (method : List UInt8) :
    RequestLineReverseOffsets.checkMethod method =
      if method.all RequestLineDirect.isTokenByte then .ok () else .error .invalidMethod := by
  induction method with
  | nil => rfl
  | cons byte bytes ih =>
    unfold RequestLineReverseOffsets.checkMethod RequestLineReverseOffsets.isMethodToken
    cases token : RequestLineDirect.isTokenByte byte <;> simp [ih,token]

private theorem reverse_reference (input : List UInt8) :
    RequestLineReverseOffsets.parseRequestLine input = reference input := by
  have boundary : RequestLineReverseOffsets.requestLineEnd input =
    RequestLineDirect.findTerminator input := reverse_boundary input 0 (by omega)
  unfold RequestLineReverseOffsets.parseRequestLine reference
  rw [boundary]
  cases found : RequestLineDirect.findTerminator input with
  | error error => rfl
  | ok lineEnd =>
    obtain ⟨_,limit,inside⟩ := findTerminatorFrom_bound input 0 lineEnd (by omega) found
    have length : (input.take lineEnd).length = lineEnd := by simp; omega
    simp only [bind_ok]
    generalize input.take lineEnd = line at length ⊢
    cases line_shape line with
    | @tab before after =>
      rw [fields_tab,reverse_error]
      · rfl
      · refine ⟨before.length,?_⟩
        simp [List.zipIdx_append]
    | one plain =>
      rw [fields_one plain,reverse_plain plain]
      simp
    | @two method target methodPlain targetPlain =>
      have size : method.length + (target.length + 1) = lineEnd := by simpa using length
      rw [fields_two methodPlain targetPlain,reverse_word methodPlain,reverse_plain targetPlain]
      simp only [bind_ok,Nat.zero_add]
      grind [List.length_eq_zero_iff]
    | @three method target version methodPlain targetPlain versionPlain =>
      have size : method.length + (target.length + (version.length + 1) + 1) = lineEnd := by simpa using length
      rw [fields_three methodPlain targetPlain versionPlain,reverse_word methodPlain,
        reverse_word targetPlain,reverse_plain versionPlain]
      simp only [bind_ok,Nat.zero_add,if_true,show ¬ (1 + 1 = 1) by omega,if_false,drop_second_hit,
        slice_between,take_hit,reverse_method]
      by_cases filled : method = [] ∨ target = [] ∨ version = []
      · grind [List.length_eq_zero_iff]
      · obtain ⟨methodSome,targetSome,versionSome⟩ := by simpa only [not_or] using filled
        have targetBound : ¬ target.length > 8192 := by omega
        have versionLength := List.length_pos_iff.mpr versionSome
        have spaced : ¬ (decide (1 + 1 ≠ 2) || decide (method.length = 0) ||
            decide (method.length + 1 + target.length = method.length + 1) ||
            decide (method.length + 1 + target.length + 1 = lineEnd)) = true := by
          simp [methodSome,targetSome]
          omega
        rw [if_neg (by simp),if_neg spaced,if_neg filled]
        simp only [bind_ok,checkedFields,RequestLineReverseOffsets.checkTarget]
        rw [show RequestLineReverseOffsets.maxMethodBytes = 32 from rfl,
          show RequestLineReverseOffsets.maxRequestLineBytes = 8192 from rfl]
        by_cases long : method.length > 32
        · simp [long]
        · rw [if_neg long,if_neg targetBound]
          by_cases tokens : method.all RequestLineDirect.isTokenByte = true
          · have valid : ¬ (decide (method.length > 32) || !method.all RequestLineDirect.isTokenByte) = true := by
              simp [tokens,long]
            rw [if_pos tokens,lowercase_token tokens,bind_ok,if_neg valid]
            cases checked : RequestLineDirect.checkTarget target with
            | error error => simp
            | ok done =>
              have visible := (checkTarget_ok target).mp checked
              rw [collectChars_ascii fun b member => graphic_ascii (visible b member).1]
          · have invalid : (decide (method.length > 32) || !method.all RequestLineDirect.isTokenByte) = true := by
              rw [Bool.eq_false_iff.mpr tokens,Bool.not_false,Bool.or_true]
            rw [if_neg tokens,if_pos invalid,bind_error]
    | @more method target version rest methodPlain targetPlain versionPlain noTab =>
      rw [fields_more rest methodPlain targetPlain versionPlain,reverse_word methodPlain,
        reverse_word targetPlain,reverse_word versionPlain]
      obtain ⟨counted,ran,_⟩ := reverse_count
        (rest.zipIdx (0 + method.length + 1 + target.length + 1 + version.length + 1)).reverse ⟨0,0,0⟩ (by
          intro entry member tab
          have inside := List.fst_mem_of_mem_zipIdx (List.mem_reverse.mp member)
          exact noTab (tab ▸ inside))
      rw [ran]
      have notTwo : counted.count + 1 + 1 + 1 ≠ 2 := by omega
      simp [notTwo]

private theorem refines_reference (parse : List UInt8 → Result RequestLine)
    (registered : parse ∈ requestLineImplementations) (input : List UInt8) : parse input = reference input := by
  simp only [requestLineImplementations,List.mem_cons,List.not_mem_nil,or_false] at registered
  rcases registered with rfl | rfl | rfl | rfl | rfl
  · exact state_reference input
  · exact direct_reference input
  · exact rules_reference input
  · exact machine_reference input
  · exact reverse_reference input

/-- A byte that may stand in a line before its CRLF. -/
def LineByte (byte : UInt8) : Prop :=
  byte ≠ 0x0d ∧ byte ≠ 0x0a ∧
    (byte ≤ 8 || (11 ≤ byte && byte ≤ 12) || (14 ≤ byte && byte ≤ 31) || byte == 127) = false

instance (byte : UInt8) : Decidable (LineByte byte) := inferInstanceAs (Decidable (_ ∧ _))

private theorem terminator_iff (suffix : List UInt8) (offset lineEnd : Nat) (bound : offset ≤ 8192) :
    RequestLineDirect.findTerminatorFrom offset suffix = .ok lineEnd ↔
      ∃ line rest, suffix = line ++ 0x0d :: 0x0a :: rest ∧ lineEnd = offset + line.length ∧
        lineEnd ≤ 8192 ∧ ∀ b ∈ line, LineByte b := by
  induction suffix generalizing offset with
  | nil => simp [RequestLineDirect.findTerminatorFrom]
  | cons byte bytes ih =>
    have next := ih (offset + 1)
    unfold RequestLineDirect.findTerminatorFrom
    constructor
    · intro found
      by_cases ending : byte = 0x0d ∧ bytes.head? = some 0x0a ∧ lineEnd = offset
      · obtain ⟨rfl,following,rfl⟩ := ending
        obtain ⟨rest,rfl⟩ := List.head?_eq_some_iff.mp following
        exact ⟨[],rest,rfl,by simp,bound,by simp⟩
      · have passed : LineByte byte ∧ offset ≠ 8192 ∧
            RequestLineDirect.findTerminatorFrom (offset + 1) bytes = .ok lineEnd := by
          grind [RequestLineDirect.maxLineContent,invalidRequestLine,LineByte]
        obtain ⟨clean,inside,later⟩ := passed
        obtain ⟨line,rest,rfl,length,limit,cleans⟩ := (next (by omega)).mp later
        exact ⟨byte :: line,rest,rfl,by simp; omega,limit,by simpa using ⟨clean,cleans⟩⟩
    · rintro ⟨line,rest,same,length,limit,clean⟩
      cases line with
      | nil =>
        obtain ⟨rfl,rfl⟩ := List.cons_eq_cons.mp same
        simp [length]
      | cons first line =>
        obtain ⟨rfl,rfl⟩ := List.cons_eq_cons.mp same
        simp only [List.length_cons] at length
        obtain ⟨notCr,notLf,plain⟩ := clean byte (by simp)
        have inner : RequestLineDirect.findTerminatorFrom (offset + 1) (line ++ 0x0d :: 0x0a :: rest) =
            .ok lineEnd :=
          (next (by omega)).mpr ⟨line,rest,rfl,by omega,limit,fun b member => clean b (by simp [member])⟩
        have inside : offset ≠ 8192 := by omega
        simp only [RequestLineDirect.maxLineContent,inside,if_false,beq_iff_eq,notCr,notLf,plain]
        simpa using inner

/-- The request lines of the grammar: the line before its CRLF, and the record it stands for. -/
def Accepted (input : List UInt8) (line : RequestLine) : Prop :=
  ∃ method target rest,
    input = method ++ 0x20 :: (target ++ 0x20 :: (ascii "HTTP/1.1" ++ 0x0d :: 0x0a :: rest)) ∧
    1 ≤ method.length ∧ method.length ≤ 32 ∧ (∀ b ∈ method, RequestLineDirect.isTokenByte b) ∧
    target ≠ [] ∧ (∀ b ∈ target, isAsciiGraphic b ∧ b ≠ 0x23) ∧
    (method ++ 0x20 :: (target ++ 0x20 :: ascii "HTTP/1.1")).length ≤ 8192 ∧
    line = ⟨method.map toAsciiLowercase,target,.http11,
      (method ++ 0x20 :: (target ++ 0x20 :: ascii "HTTP/1.1")).length + 2⟩

theorem token_plain (byte : UInt8) (token : RequestLineDirect.isTokenByte byte) :
    (byte ≠ 0x20 ∧ byte ≠ 0x09) ∧ LineByte byte := by
  revert token
  exact forall_byte (p := fun b => RequestLineDirect.isTokenByte b →
    (b ≠ 0x20 ∧ b ≠ 0x09) ∧ LineByte b) (by decide) byte

theorem graphic_plain (byte : UInt8) (graphic : isAsciiGraphic byte) :
    (byte ≠ 0x20 ∧ byte ≠ 0x09) ∧ LineByte byte := by
  revert graphic
  exact forall_byte (p := fun b => isAsciiGraphic b → (b ≠ 0x20 ∧ b ≠ 0x09) ∧ LineByte b)
    (by decide) byte

private theorem version_bytes (byte : UInt8) (member : byte ∈ ascii "HTTP/1.1") :
    (byte ≠ 0x20 ∧ byte ≠ 0x09) ∧ LineByte byte := by
  have table : (ascii "HTTP/1.1").all (fun b => decide ((b ≠ 0x20 ∧ b ≠ 0x09) ∧ LineByte b)) = true := by
    decide
  simpa using List.all_eq_true.mp table byte member

theorem reference_iff (input : List UInt8) (line : RequestLine) :
    reference input = .ok line ↔ Accepted input line := by
  constructor
  · intro ok
    obtain ⟨lineEnd,found,parsed⟩ := bind_success ok
    obtain ⟨⟨method,target,version⟩,fields,checked⟩ := bind_success parsed
    obtain ⟨content,rest,rfl,rfl,limit,_⟩ := (terminator_iff input 0 lineEnd (by omega)).mp found
    rw [Nat.zero_add,List.take_left] at fields
    obtain ⟨rfl,methodSome,targetSome,_⟩ := requestFields_ok fields
    simp only [checkedFields] at checked
    split at checked
    · cases checked
    · rename_i valid
      simp only [Bool.or_eq_true,decide_eq_true_eq,Bool.not_eq_eq_eq_not,Bool.not_true,not_or,
        Bool.not_eq_false,List.all_eq_true] at valid
      obtain ⟨_,visible,done⟩ := bind_success checked
      split at done
      · cases done
      · rename_i same
        have versionEq : version = ascii "HTTP/1.1" := by simpa using same
        subst versionEq
        cases done
        refine ⟨method,target,rest,by simp,List.length_pos_iff.mpr methodSome,by omega,valid.2,targetSome,
          (checkTarget_ok target).mp visible,by simpa using limit,by simp⟩
  · rintro ⟨method,target,rest,rfl,positive,short,tokens,targetSome,visible,limit,rfl⟩
    have methodPlain : Plain method := fun b member => (token_plain b (tokens b member)).1
    have targetPlain : Plain target := fun b member => (graphic_plain b (visible b member).1).1
    have versionPlain : Plain (ascii "HTTP/1.1") := fun b member => (version_bytes b member).1
    have clean : ∀ b ∈ method ++ 0x20 :: (target ++ 0x20 :: ascii "HTTP/1.1"), LineByte b := by
      intro b member
      simp only [List.mem_append,List.mem_cons] at member
      rcases member with inMethod | rfl | inTarget | rfl | inVersion
      · exact (token_plain b (tokens b inMethod)).2
      · decide
      · exact (graphic_plain b (visible b inTarget).1).2
      · decide
      · exact (version_bytes b inVersion).2
    have found : RequestLineDirect.findTerminator
        (method ++ 0x20 :: (target ++ 0x20 :: (ascii "HTTP/1.1" ++ 0x0d :: 0x0a :: rest))) =
        .ok (method ++ 0x20 :: (target ++ 0x20 :: ascii "HTTP/1.1")).length :=
      (terminator_iff _ 0 _ (by omega)).mpr ⟨_,rest,by simp,by simp,limit,clean⟩
    have methodSome : method ≠ [] := List.length_pos_iff.mp positive
    have cut : (method ++ 0x20 :: (target ++ 0x20 :: (ascii "HTTP/1.1" ++ 0x0d :: 0x0a :: rest))).take
        (method ++ 0x20 :: (target ++ 0x20 :: ascii "HTTP/1.1")).length =
        method ++ 0x20 :: (target ++ 0x20 :: ascii "HTTP/1.1") := by
      rw [show method ++ 0x20 :: (target ++ 0x20 :: (ascii "HTTP/1.1" ++ 0x0d :: 0x0a :: rest)) =
        (method ++ 0x20 :: (target ++ 0x20 :: ascii "HTTP/1.1")) ++ 0x0d :: 0x0a :: rest by simp,List.take_left]
    have fields : requestFields (method ++ 0x20 :: (target ++ 0x20 :: ascii "HTTP/1.1")) =
        .ok (method,target,ascii "HTTP/1.1") := by
      rw [fields_three methodPlain targetPlain versionPlain,if_neg]
      simpa [methodSome,targetSome] using (by decide : ascii "HTTP/1.1" ≠ [])
    have guard : ¬ (decide (method.length > 32) || !method.all RequestLineDirect.isTokenByte) = true := by
      simpa [short] using tokens
    unfold reference
    rw [found,bind_ok,cut,fields,bind_ok]
    simp only [checkedFields]
    rw [if_neg guard,(checkTarget_ok target).mpr visible,bind_ok]
    simp

theorem parse_accepted {parse : List UInt8 → Result RequestLine} (registered : parse ∈ requestLineImplementations)
    {input : List UInt8} {line : RequestLine} (parsed : parse input = .ok line) : Accepted input line := by
  rw [refines_reference parse registered] at parsed
  exact (reference_iff input line).mp parsed

theorem accepted_parse {parse : List UInt8 → Result RequestLine} (registered : parse ∈ requestLineImplementations)
    {input : List UInt8} {line : RequestLine} (accepted : Accepted input line) : parse input = .ok line := by
  rw [refines_reference parse registered]
  exact (reference_iff input line).mpr accepted

/-- The registered parsers return one result; it is a record exactly for the lines of the grammar, and the
bytes after the line never matter. -/
theorem request_line_agreement (input : List UInt8) :
    Agree requestLineImplementations input ∧
    ∀ parse ∈ requestLineImplementations, ∀ line,
      (parse input = .ok line ↔ Accepted input line) ∧
      (parse input = .ok line → ∀ suffix, parse (input.take line.bytesConsumed ++ suffix) = .ok line) := by
  refine ⟨agree_of_reference (reference input) fun parse registered =>
    refines_reference parse registered input,fun parse registered line => ⟨?_,?_⟩⟩
  · rw [refines_reference parse registered input,reference_iff]
  · intro ok suffix
    rw [refines_reference parse registered,reference_iff] at ok ⊢
    obtain ⟨method,target,rest,rfl,positive,short,tokens,targetSome,visible,limit,rfl⟩ := ok
    refine ⟨method,target,suffix,?_,positive,short,tokens,targetSome,visible,limit,rfl⟩
    have split : method ++ 0x20 :: (target ++ 0x20 :: (ascii "HTTP/1.1" ++ 0x0d :: 0x0a :: rest)) =
        (method ++ 0x20 :: (target ++ 0x20 :: ascii "HTTP/1.1") ++ [0x0d,0x0a]) ++ rest := by simp
    have length : (method ++ 0x20 :: (target ++ 0x20 :: ascii "HTTP/1.1")).length + 2 =
        (method ++ 0x20 :: (target ++ 0x20 :: ascii "HTTP/1.1") ++ [0x0d,0x0a]).length := by
      simp only [List.length_append,List.length_cons,List.length_nil]
    rw [split,length,List.take_left]
    simp

end Polyguard.RequestLineAgreement
