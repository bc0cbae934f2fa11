import Polyguard.CanonicalHead.Wire

/-! What the implementations check of a name, of a host and of the parts of a head.
The tables and classes of each of them are read as the checks of `construct`, and the
verdicts are moved through the stages of a fallible run. -/
namespace Polyguard.CanonicalHead
open Ascii Slices Decimal Address TargetBytes HeaderFraming

section Names

theorem positive_length {α : Type} (xs : List α) : decide (1 ≤ xs.length) = !xs.isEmpty := by
  cases xs <;> simp

theorem all_lowerToken (name : List UInt8) : name.all isLowerToken = (name.all isTchar && !name.any isAsciiUppercase) := by
  induction name with
  | nil => rfl
  | cons byte name ih =>
    rw [List.all_cons,List.all_cons,List.any_cons,ih,isLowerToken]
    cases isTchar byte <;> cases isAsciiUppercase byte <;> simp

theorem table_lookup {D : Type} (names : List (List UInt8)) (decision : D) (name : List UInt8) :
    ((names.map fun entry => (entry,decision)).findSome? fun rule => if rule.1 == name then some rule.2 else none) =
      if names.contains name then some decision else none := by
  induction names with
  | nil => rfl
  | cons first names ih =>
    rw [List.map_cons,List.findSome?_cons,List.contains_cons,ih]
    by_cases same : first = name
    · subst same
      simp
    · have other : (name == first) = false := beq_false_of_ne (Ne.symm same)
      simp [same,other]

theorem forbidden_unreplaced {name : List UInt8} (forbidden : isForbidden name) : isReplaced name = false := by
  have listed : ∀ entry ∈ [ascii "proxy-connection",ascii "keep-alive",ascii "te",ascii "trailer",ascii "upgrade",
      ascii "proxy-authenticate",ascii "proxy-authorization"], isReplaced entry = false := by decide
  exact listed name (List.contains_iff_mem.mp forbidden)

theorem rulePhases_action (name : List UInt8) : CanonicalHeadRulePhases.fieldAction name =
    if isReplaced name then .replace else if isForbidden name then .reject else .preserve := by
  have replaced : (CanonicalHeadRulePhases.replacedFields.contains name || (ascii "x-forwarded-").isPrefixOf name) =
      isReplaced name := by
    unfold isReplaced
    by_cases same : name = ascii "x-forwarded-for"
    · subst same
      decide
    · simp [CanonicalHeadRulePhases.replacedFields,same]
  unfold CanonicalHeadRulePhases.fieldAction
  rw [replaced]
  rfl

theorem composableTable_decision (name : List UInt8) : CanonicalHeadComposableTable.inputFieldDecision name =
    if isReplaced name then .discard else if isForbidden name then .invalid else .forward := by
  have apart := @forbidden_unreplaced name
  unfold CanonicalHeadComposableTable.inputFieldDecision
  unfold isReplaced isForbidden at *
  generalize [ascii "host",ascii "content-length",ascii "transfer-encoding",ascii "connection",ascii "forwarded"].contains name = listed at *
  generalize (ascii "x-forwarded-").isPrefixOf name = extended at *
  generalize [ascii "proxy-connection",ascii "keep-alive",ascii "te",ascii "trailer",ascii "upgrade",ascii "proxy-authenticate",
    ascii "proxy-authorization"].contains name = forbidden at *
  cases listed <;> cases extended <;> cases forbidden <;> simp_all

theorem table_decision {D : Type} (replace forbid keep : D) (name : List UInt8) :
    (if (ascii "x-forwarded-").isPrefixOf name then replace
      else ((([ascii "host",ascii "content-length",ascii "transfer-encoding",ascii "connection",ascii "forwarded"].map fun entry =>
          (entry,replace)) ++
        ([ascii "proxy-connection",ascii "keep-alive",ascii "te",ascii "trailer",ascii "upgrade",ascii "proxy-authenticate",
          ascii "proxy-authorization"].map fun entry => (entry,forbid))).findSome? fun rule =>
            if rule.1 == name then some rule.2 else none).getD keep) =
      if isReplaced name then replace else if isForbidden name then forbid else keep := by
  rw [List.findSome?_append,table_lookup,table_lookup]
  unfold isReplaced isForbidden
  generalize [ascii "host",ascii "content-length",ascii "transfer-encoding",ascii "connection",ascii "forwarded"].contains name = listed
  generalize (ascii "x-forwarded-").isPrefixOf name = extended
  generalize [ascii "proxy-connection",ascii "keep-alive",ascii "te",ascii "trailer",ascii "upgrade",ascii "proxy-authenticate",
    ascii "proxy-authorization"].contains name = forbidden
  cases listed <;> cases extended <;> cases forbidden <;> rfl

theorem compiledPlan_rule (name : List UInt8) : CanonicalHeadCompiledPlan.headerRule name =
    if isReplaced name then CanonicalHeadCompiledPlan.discard
    else if isForbidden name then CanonicalHeadCompiledPlan.forbid else CanonicalHeadCompiledPlan.keep :=
  table_decision _ _ _ name

theorem dualSink_rule (name : List UInt8) : CanonicalHeadDualSink.headerRule name =
    if isReplaced name then .replace else if isForbidden name then .forbidden else .keep :=
  table_decision _ _ _ name

theorem reverseFill_decision (name : List UInt8) : CanonicalHeadReverseFill.survivorDecision name =
    if isReplaced name then .replace else if isForbidden name then .reject else .retain :=
  table_decision _ _ _ name

end Names

section Hosts

theorem isDnsByte_classes (byte : UInt8) : isDnsByte byte → isAscii byte ∧ isAsciiUppercase byte = false ∧ byte ≠ 0x3a := by
  exact forall_byte (p := fun b => isDnsByte b → isAscii b ∧ isAsciiUppercase b = false ∧ b ≠ 0x3a) (by decide) byte

theorem labels_bytes {value : List UInt8} (labels : (value.splitOn 0x2e).all isDnsLabel) : ∀ b ∈ value, isDnsByte b ∨ b = 0x2e := by
  intro b member
  rcases splitOn_mem 0x2e member with same | ⟨part,among,within⟩
  · exact .inr same
  · have label := List.all_eq_true.mp labels part among
    simp only [isDnsLabel,Bool.and_eq_true] at label
    exact .inl (List.all_eq_true.mp label.2 b within)

theorem labels_end {value : List UInt8} (labels : (value.splitOn 0x2e).all isDnsLabel) : endsWith 0x2e value = false := by
  rw [Bool.eq_false_iff]
  intro ends
  obtain ⟨init,rfl⟩ := List.getLast?_eq_some_iff.mp (beq_iff_eq.mp ends)
  have last : [] ∈ (init ++ [0x2e]).splitOn 0x2e := by
    rw [splitOn_append]
    exact List.mem_append_right _ (List.mem_cons_of_mem _ (List.mem_singleton.mpr rfl))
  exact absurd (List.all_eq_true.mp labels [] last) (by decide)

theorem labels_ascii {value : List UInt8} (labels : (value.splitOn 0x2e).all isDnsLabel) :
    value.all isAscii = true ∧ value.any isAsciiUppercase = false := by
  rw [List.all_eq_true,List.any_eq_false]
  constructor
  · intro b member
    rcases labels_bytes labels b member with dns | rfl
    · exact (isDnsByte_classes b dns).1
    · decide
  · intro b member
    rcases labels_bytes labels b member with dns | rfl
    · rw [(isDnsByte_classes b dns).2.1]
      exact Bool.false_ne_true
    · decide

theorem rulePhases_dns : CanonicalHeadRulePhases.validateDns = checkDns := by
  funext value
  unfold CanonicalHeadRulePhases.validateDns checkDns ensure isDnsName
  cases labels : (value.splitOn 0x2e).all isDnsLabel with
  | false => simp
  | true => by_cases short : value.length ≤ 253 <;> simp [labels_ascii labels,labels_end labels,short,Nat.not_lt.mpr,Nat.not_le.mp]

theorem composableTable_dns : CanonicalHeadComposableTable.validateDns = checkDns := by
  funext value
  unfold CanonicalHeadComposableTable.validateDns checkDns ensure isDnsName
  cases labels : (value.splitOn 0x2e).all isDnsLabel with
  | false => simp
  | true => simp [labels_ascii labels,labels_end labels]

theorem reverseFill_dns : CanonicalHeadReverseFill.validateDns = checkDns := composableTable_dns

theorem byteRule_classes (byte : UInt8) :
    (CanonicalHeadCompiledPlan.byteRule byte &&& CanonicalHeadCompiledPlan.byteToken != 0) = isTchar byte ∧
    (CanonicalHeadCompiledPlan.byteRule byte &&& CanonicalHeadCompiledPlan.byteFieldValue != 0) = isValueByte byte ∧
    (CanonicalHeadCompiledPlan.byteRule byte &&& CanonicalHeadCompiledPlan.byteUpperHex != 0) = isUpperHex byte ∧
    (CanonicalHeadCompiledPlan.byteRule byte &&& CanonicalHeadCompiledPlan.byteUnreserved != 0) = isUnreserved byte ∧
    (CanonicalHeadCompiledPlan.byteRule byte &&& CanonicalHeadCompiledPlan.byteDns != 0) = isDnsByte byte := by
  exact forall_byte (p := fun b =>
    (CanonicalHeadCompiledPlan.byteRule b &&& CanonicalHeadCompiledPlan.byteToken != 0) = isTchar b ∧
    (CanonicalHeadCompiledPlan.byteRule b &&& CanonicalHeadCompiledPlan.byteFieldValue != 0) = isValueByte b ∧
    (CanonicalHeadCompiledPlan.byteRule b &&& CanonicalHeadCompiledPlan.byteUpperHex != 0) = isUpperHex b ∧
    (CanonicalHeadCompiledPlan.byteRule b &&& CanonicalHeadCompiledPlan.byteUnreserved != 0) = isUnreserved b ∧
    (CanonicalHeadCompiledPlan.byteRule b &&& CanonicalHeadCompiledPlan.byteDns != 0) = isDnsByte b) (by decide +kernel) byte

theorem byteRule_misses (byte : UInt8) :
    (CanonicalHeadCompiledPlan.byteRule byte &&& CanonicalHeadCompiledPlan.byteToken == 0) = !isTchar byte ∧
    (CanonicalHeadCompiledPlan.byteRule byte &&& CanonicalHeadCompiledPlan.byteFieldValue == 0) = !isValueByte byte ∧
    (CanonicalHeadCompiledPlan.byteRule byte &&& CanonicalHeadCompiledPlan.byteUpperHex == 0) = !isUpperHex byte ∧
    (CanonicalHeadCompiledPlan.byteRule byte &&& CanonicalHeadCompiledPlan.byteDns == 0) = !isDnsByte byte := by
  obtain ⟨token,value,upper,-,dns⟩ := byteRule_classes byte
  rw [← token,← value,← upper,← dns]
  simp only [bne,Bool.not_not,and_self]

theorem compiledPlan_dns : CanonicalHeadCompiledPlan.validateDns = checkDns := by
  funext value
  have label : (fun label : List UInt8 => label.isEmpty || decide (label.length > 63) || startsWith 0x2d label ||
      endsWith 0x2d label || label.any fun byte => CanonicalHeadCompiledPlan.byteRule byte &&& CanonicalHeadCompiledPlan.byteDns == 0) =
        fun label => !isDnsLabel label := by
    funext label
    simp only [(byteRule_misses _).2.2.2,isDnsLabel,Bool.not_and,Bool.not_not,List.not_all_eq_any_not,← Nat.not_lt,
      decide_not,gt_iff_lt]
  unfold CanonicalHeadCompiledPlan.validateDns checkDns ensure isDnsName
  rw [label,← List.not_all_eq_any_not]
  cases labels : (value.splitOn 0x2e).all isDnsLabel with
  | false => simp
  | true => by_cases short : value.length ≤ 253 <;> simp [labels_end labels,short,Nat.not_lt.mpr,Nat.not_le.mp]

theorem dualSink_dns : CanonicalHeadDualSink.validCanonicalDns = isDnsName := by
  funext value
  unfold CanonicalHeadDualSink.validCanonicalDns isDnsName
  cases labels : (value.splitOn 0x2e).all isDnsLabel with
  | false => simp
  | true => simp [labels_end labels]

end Hosts

section Verdicts

/-- The failures of a check are all the one error of a broken invariant. -/
def Verdict {α : Type} (result : Result α) : Prop := ∀ error, result = .error error → error = .serializationInvariant

theorem Verdict.ok {α : Type} (value : α) : Verdict (.ok value : Result α) := by
  rintro error ⟨⟩

theorem Verdict.invariant {α : Type} : Verdict (invariant : Result α) := by
  rintro error ⟨⟩
  rfl

theorem Verdict.bind {α β : Type} {first : Result α} {next : α → Result β} (head : Verdict first)
    (tail : ∀ value, Verdict (next value)) : Verdict (first >>= next) := by
  cases first with
  | error error =>
    rw [head error rfl]
    exact Verdict.invariant
  | ok value => exact tail value

theorem Verdict.map {α β : Type} {first : Result α} (f : α → β) (head : Verdict first) : Verdict (first.map f) := by
  cases first with
  | error error =>
    rw [head error rfl]
    exact Verdict.invariant
  | ok value => exact Verdict.ok _

theorem Verdict.ite {α : Type} {p : Prop} [Decidable p] {yes no : Result α} (left : Verdict yes) (right : Verdict no) :
    Verdict (if p then yes else no) := by
  split
  · exact left
  · exact right

theorem ensure_verdict (held : Bool) : Verdict (ensure held) := .ite (.ok _) .invariant

theorem Verdict.ensure {result : Result Unit} (verdict : Verdict result) : result = ensure result.isOk := by
  cases result with
  | error error =>
    rw [verdict error rfl]
    rfl
  | ok value => rfl

theorem ensure_then {α : Type} (held : Bool) (next : Result α) :
    (ensure held >>= fun _ => next) = if held then next else invariant := by
  cases held <;> rfl

theorem validateIpv6_verdict (value : List UInt8) : Verdict (validateIpv6 value) := .ite .invariant (.ok _)

theorem parsePort_verdict (value : List UInt8) : Verdict (parsePort value) := by
  unfold parsePort
  refine .ite .invariant ?_
  split
  · exact .ok _
  · exact .invariant

theorem parseOptionalPort_verdict (suffix : List UInt8) : Verdict (parseOptionalPort suffix) := by
  unfold parseOptionalPort
  split
  · exact .ok _
  · exact .ite ((parsePort_verdict _).map _) .invariant

theorem effectiveHost_verdict (authority : EffectiveAuthority) : Verdict (effectiveHost checkDns authority) := by
  unfold effectiveHost
  refine .ite .invariant ?_
  split
  · exact (validateIpv6_verdict _).bind fun _ => .ok _
  · exact .ite ((validateIpv6_verdict _).bind fun _ => .ok _) ((ensure_verdict _).bind fun _ => .ok _)

theorem splitNamePort_verdict (value : List UInt8) : Verdict (splitNamePort value) := by
  unfold splitNamePort
  split
  · exact .ite ((parsePort_verdict _).map _) .invariant
  · exact .ok _

theorem parseTargetAuthority_verdict (value : List UInt8) : Verdict (parseTargetAuthority checkDns value) := by
  unfold parseTargetAuthority
  refine .ite ?_ ((splitNamePort_verdict value).bind fun _ => (ensure_verdict _).bind fun _ => .ok _)
  dsimp only
  split
  · exact .invariant
  · exact (validateIpv6_verdict _).bind fun _ => (parseOptionalPort_verdict _).bind fun _ => .ok _

theorem validateForm_verdict (target : NormalizedTarget) (endpoint : Endpoint) : Verdict (validateForm checkDns target endpoint) := by
  unfold validateForm
  split
  · exact .ok _
  · split
    · exact .invariant
    · exact (parseTargetAuthority_verdict _).bind fun _ => .ite .invariant (.ok _)
  · exact .invariant

theorem validatePath_verdict (pathAndQuery routingPath : List UInt8) : Verdict (validatePath pathAndQuery routingPath) :=
  .ite .invariant (.ite .invariant (ensure_verdict _))

end Verdicts

end Polyguard.CanonicalHead
