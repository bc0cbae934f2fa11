import Polyguard.Forwarding.Implementations

/-! The scan of the forwarding fields.
A scan keeps the value of every place that it has met. Two implementations look for a
repetition before they check the value, three behind it; both accept the same fields, and
they part on a repetition whose value is too long. -/
namespace Polyguard.ForwardingAgreement
open Ascii Slices

section Values

def isPrintable (byte : UInt8) : Bool := 0x20 ≤ byte && byte ≤ 0x7e

/-- A value of at most 1024 printable bytes with something in each of its members. -/
structure Acceptable (value : List UInt8) : Prop where
  short : value.length ≤ forwardingValueLimit
  printable : value.all isPrintable = true
  members : hasBlankMember value = false

/-- The check of a value, the same in all five implementations. -/
def acceptValue (value : List UInt8) : Result Unit := do
  enforceForwardingLimit value.length
  if value.all isPrintable && !hasBlankMember value then .ok () else invalidForwardingInput

theorem enforce_ok {actual : Nat} : enforceForwardingLimit actual = .ok () ↔ actual ≤ forwardingValueLimit := by
  unfold enforceForwardingLimit
  split
  · rename_i above
    exact iff_of_false (fun impossible => by cases impossible) (Nat.not_le.mpr above)
  · rename_i within
    exact iff_of_true rfl (Nat.not_lt.mp within)

theorem acceptValue_ok {value : List UInt8} : acceptValue value = .ok () ↔ Acceptable value := by
  unfold acceptValue
  constructor
  · intro accepted
    obtain ⟨_,short,accepted⟩ := bind_success accepted
    split at accepted
    · rename_i valid
      rw [Bool.and_eq_true,Bool.not_eq_true'] at valid
      exact ⟨enforce_ok.mp short,valid.1,valid.2⟩
    · cases accepted
  · intro acceptable
    rw [enforce_ok.mpr acceptable.short,bind_ok,acceptable.printable,acceptable.members]
    rfl

theorem acceptValue_short {value : List UInt8} (short : value.length ≤ forwardingValueLimit) :
    acceptValue value = .ok () ∨ acceptValue value = invalidForwardingInput := by
  unfold acceptValue
  rw [enforce_ok.mpr short,bind_ok]
  split
  · exact .inl rfl
  · exact .inr rfl

theorem acceptValue_long {value : List UInt8} (long : forwardingValueLimit < value.length) :
    acceptValue value = .error (.limitExceeded "forwarding_value_bytes" forwardingValueLimit value.length) := by
  unfold acceptValue enforceForwardingLimit
  rw [if_pos long]
  rfl

/-- The members behind the first byte of a value, and the first member with it in front. -/
theorem hasBlankMember_split (value : List UInt8) : ∃ first rest, value.splitOn 0x2c = first :: rest ∧
    hasBlankMember value = (first.all (· == 0x20) || rest.any fun member => member.all (· == 0x20)) := by
  obtain ⟨first,rest,split⟩ := List.exists_cons_of_ne_nil (List.splitOn_ne_nil 0x2c value)
  exact ⟨first,rest,split,by unfold hasBlankMember; rw [split,List.any_cons]⟩

/-- The flag tells whether the member that is open already has content. -/
def blankBehind (content : Bool) (value : List UInt8) : Bool :=
  match value.splitOn 0x2c with
  | [] => !content
  | first :: rest => (!content && first.all (· == 0x20)) || rest.any fun member => member.all (· == 0x20)

theorem blankBehind_nil (content : Bool) : blankBehind content [] = !content := by
  cases content <;> rfl

theorem blankBehind_false (value : List UInt8) : blankBehind false value = hasBlankMember value := by
  obtain ⟨first,rest,split,blank⟩ := hasBlankMember_split value
  rw [blank,blankBehind,split]
  rfl

theorem blankBehind_cons (content : Bool) (byte : UInt8) (rest : List UInt8) : blankBehind content (byte :: rest) =
    if byte == 0x2c then !content || blankBehind false rest
    else if byte == 0x20 then blankBehind content rest
    else blankBehind true rest := by
  obtain ⟨first,later,split⟩ := List.exists_cons_of_ne_nil (List.splitOn_ne_nil (0x2c : UInt8) rest)
  unfold blankBehind
  rw [List.splitOn_cons_eq_if_modifyHead,split]
  by_cases comma : byte == 0x2c
  · rw [if_pos comma,if_pos comma]
    cases content <;> rfl
  · rw [if_neg comma,if_neg comma]
    rw [List.modifyHead_cons]
    dsimp only
    rw [List.all_cons]
    by_cases blank : byte == 0x20
    · rw [if_pos blank,blank,Bool.true_and]
    · rw [if_neg blank,Bool.not_eq_true _ |>.mp blank]
      cases content <;> rfl

theorem direct_members (content : Bool) (value : List UInt8) :
    ForwardingDirectMatch.membersHaveContent content value = !blankBehind content value := by
  induction value generalizing content with
  | nil => rw [ForwardingDirectMatch.membersHaveContent,blankBehind_nil,Bool.not_not]
  | cons byte rest ih =>
    rw [ForwardingDirectMatch.membersHaveContent,blankBehind_cons,ih,ih,ih]
    split
    · rw [Bool.not_or,Bool.not_not]
    · split <;> rfl

theorem direct_value (value : List UInt8) : ForwardingDirectMatch.validatePriorValue value = acceptValue value := by
  unfold ForwardingDirectMatch.validatePriorValue acceptValue
  refine bind_congr_ok fun _ _ => ?_
  rw [direct_members,blankBehind_false]
  have printable : (value.any fun byte => !(decide (0x20 ≤ byte) && decide (byte ≤ 0x7e))) = !value.all isPrintable := by
    rw [List.not_all_eq_any_not]
    rfl
  rw [printable]
  cases empty : value.isEmpty with
  | true =>
    rw [List.isEmpty_iff.mp empty]
    rfl
  | false =>
    cases value.all isPrintable <;> cases hasBlankMember value <;> rfl

theorem table_value (value : List UInt8) : ForwardingDecisionTable.validateTrustedValue value = acceptValue value := by
  unfold ForwardingDecisionTable.validateTrustedValue acceptValue
  refine bind_congr_ok fun _ _ => ?_
  change (if value.isEmpty || !value.all isPrintable then _ else _) = _
  cases empty : value.isEmpty with
  | true =>
    rw [List.isEmpty_iff.mp empty]
    rfl
  | false =>
    cases value.all isPrintable <;> cases hasBlankMember value <;> rfl

theorem printable_any (value : List UInt8) :
    (value.any fun byte => !isAscii byte || isAsciiControl byte) = !value.all isPrintable := by
  rw [List.not_all_eq_any_not]
  congr 1
  funext byte
  exact forall_byte (p := fun byte => (!isAscii byte || isAsciiControl byte) = !isPrintable byte) (by decide) byte

theorem transition_value (value : List UInt8) : ForwardingTransitionModel.validateIncomingValue value = acceptValue value := by
  unfold ForwardingTransitionModel.validateIncomingValue acceptValue
  refine bind_congr_ok fun _ _ => ?_
  rw [printable_any]
  cases value.all isPrintable <;> cases hasBlankMember value <;> rfl

theorem central_value (value : List UInt8) : ForwardingCentralTransition.validateIncomingValue value = acceptValue value :=
  transition_value value

theorem scan_members (content : Bool) (value : List UInt8) :
    (ForwardingPrimitiveBoundary.scanMembers content value >>= fun content =>
      if content then .ok () else invalidForwardingInput) =
      if value.all isPrintable && !blankBehind content value then .ok () else invalidForwardingInput := by
  induction value generalizing content with
  | nil => cases content <;> rfl
  | cons byte rest ih =>
    rw [ForwardingPrimitiveBoundary.scanMembers,List.all_cons,blankBehind_cons]
    have kinds := forall_byte (p := fun byte => isPrintable byte =
      (byte == 0x2c || byte == 0x20 || (decide (0x21 ≤ byte) && decide (byte ≤ 0x7e)))) (by decide) byte
    rw [kinds]
    by_cases comma : byte == 0x2c
    · rw [if_pos comma,if_pos comma,comma]
      cases content with
      | true => exact ih false
      | false =>
        rw [if_neg Bool.false_ne_true]
        cases rest.all isPrintable <;> rfl
    · rw [if_neg comma,if_neg comma,Bool.not_eq_true _ |>.mp comma]
      by_cases blank : byte == 0x20
      · rw [if_pos blank,if_pos blank,blank]
        exact ih content
      · rw [if_neg blank,if_neg blank,Bool.not_eq_true _ |>.mp blank]
        cases graphic : decide (0x21 ≤ byte) && decide (byte ≤ 0x7e) with
        | true => exact ih true
        | false => rfl

theorem primitive_value (value : List UInt8) : ForwardingPrimitiveBoundary.validateOldValue value = acceptValue value := by
  unfold ForwardingPrimitiveBoundary.validateOldValue acceptValue
  refine bind_congr_ok fun _ _ => ?_
  rw [scan_members,blankBehind_false]

end Values

section Scan

abbrev Held := Slots (Option (List UInt8))

def noneHeld : Held := fun _ => none

def slotName : Slots (List UInt8) :=
  ![ascii "forwarded",ascii "x-forwarded-for",ascii "x-forwarded-proto",ascii "x-forwarded-host"]

/-- The place of a field by its exact name. -/
def exactSlot (name : List UInt8) : Option (Fin 4) := ForwardingPrimitiveBoundary.fieldSlot name

/-- The place of a field by its name in any case. -/
def foldedSlot (name : List UInt8) : Option (Fin 4) := exactSlot (name.map toAsciiLowercase)

theorem slots_ext {α : Type} {left right : Slots α} (zero : left 0 = right 0) (one : left 1 = right 1) (two : left 2 = right 2)
    (three : left 3 = right 3) : left = right := by
  funext slot
  match slot with
  | 0 => exact zero
  | 1 => exact one
  | 2 => exact two
  | 3 => exact three

theorem put_same {α : Type} (slots : Slots α) (slot : Fin 4) (value : α) : slots.put slot value slot = value := by
  simp [Slots.put]

theorem put_other {α : Type} (slots : Slots α) {slot other : Fin 4} (value : α) (apart : other ≠ slot) :
    slots.put slot value other = slots other := by
  simp [Slots.put,apart]

variable (lookup : List UInt8 → Option (Fin 4))

/-- A field whose place is taken is refused before its value is looked at. -/
def strictStep (held : Held) (field : HeaderField) : Result Held :=
  match lookup field.name with
  | none => .ok held
  | some slot => if (held slot).isSome then invalidForwardingInput else do
    acceptValue field.value
    .ok (held.put slot (some field.value))

/-- A field's value is checked before it is known whether its place is taken. -/
def eagerStep (held : Held) (field : HeaderField) : Result Held :=
  match lookup field.name with
  | none => .ok held
  | some slot => do
    acceptValue field.value
    if (held slot).isSome then invalidForwardingInput else .ok (held.put slot (some field.value))

/-- The value of the first field of a place. -/
def heldBy (fields : List HeaderField) : Held := fun slot =>
  (fields.find? fun field => lookup field.name == some slot).map (·.value)

/-- No place has two fields, and each field of one has an acceptable value. -/
structure Clean (fields : List HeaderField) : Prop where
  single : ∀ slot, fields.countP (fun field => lookup field.name == some slot) ≤ 1
  values : ∀ field ∈ fields, (lookup field.name).isSome → Acceptable field.value

theorem heldBy_isSome {fields : List HeaderField} {slot : Fin 4} :
    (heldBy lookup fields slot).isSome ↔ ∃ field ∈ fields, lookup field.name = some slot := by
  unfold heldBy
  rw [Option.isSome_map,List.find?_isSome]
  simp only [beq_iff_eq]

theorem count_held {fields : List HeaderField} {slot : Fin 4} :
    fields.countP (fun field => lookup field.name == some slot) = 0 ↔ heldBy lookup fields slot = none := by
  rw [List.countP_eq_zero,← Option.not_isSome_iff_eq_none,heldBy_isSome]
  simp only [beq_iff_eq,not_exists,not_and]

theorem heldBy_snoc (fields : List HeaderField) (field : HeaderField) (slot : Fin 4) :
    heldBy lookup (fields ++ [field]) slot =
      (heldBy lookup fields slot).or (if lookup field.name = some slot then some field.value else none) := by
  unfold heldBy
  rw [List.find?_append]
  cases fields.find? fun field => lookup field.name == some slot with
  | some found => rfl
  | none =>
    rw [Option.none_or,Option.map_none,Option.none_or]
    by_cases same : lookup field.name = some slot
    · rw [if_pos same,List.find?_cons_of_pos (by rw [beq_iff_eq]; exact same)]
      rfl
    · rw [if_neg same,List.find?_cons_of_neg (by rw [beq_iff_eq]; exact same)]
      rfl

theorem clean_snoc (fields : List HeaderField) (field : HeaderField) : Clean lookup (fields ++ [field]) ↔
    Clean lookup fields ∧ ∀ slot, lookup field.name = some slot → heldBy lookup fields slot = none ∧ Acceptable field.value := by
  constructor
  · intro clean
    refine ⟨⟨fun slot => ?_,fun other member => clean.values other (List.mem_append_left _ member)⟩,fun slot placed => ⟨?_,?_⟩⟩
    · have counted := clean.single slot
      rw [List.countP_append] at counted
      omega
    · have counted := clean.single slot
      rw [List.countP_append,List.countP_singleton,if_pos (by rw [beq_iff_eq]; exact placed)] at counted
      exact (count_held lookup).mp (by omega)
    · exact clean.values field (List.mem_append_right _ (List.mem_singleton_self field)) (by rw [placed]; rfl)
  · rintro ⟨clean,last⟩
    refine ⟨fun slot => ?_,fun other member placed => ?_⟩
    · rw [List.countP_append,List.countP_singleton]
      split
      · rename_i same
        rw [(count_held lookup).mpr (last slot (beq_iff_eq.mp same)).1]
      · exact clean.single slot
    · rcases List.mem_append.mp member with front | back
      · exact clean.values other front placed
      · rw [List.mem_singleton] at back
        subst back
        obtain ⟨slot,found⟩ := Option.isSome_iff_exists.mp placed
        exact (last slot found).2

theorem strictStep_ok {held next : Held} {field : HeaderField} : strictStep lookup held field = .ok next ↔
    (lookup field.name = none ∧ next = held) ∨
      ∃ slot, lookup field.name = some slot ∧ held slot = none ∧ Acceptable field.value ∧ next = held.put slot (some field.value) := by
  unfold strictStep
  cases lookup field.name with
  | none => simp [eq_comm]
  | some slot =>
    cases taken : held slot with
    | some value => simp [taken,invalidForwardingInput]
    | none =>
      simp only [Option.isSome_none,Bool.false_eq_true,if_false,reduceCtorEq,false_and,false_or,Option.some_inj,
        exists_eq_left',true_and,taken]
      constructor
      · intro stepped
        obtain ⟨_,accepted,stepped⟩ := bind_success stepped
        cases stepped
        exact ⟨acceptValue_ok.mp accepted,rfl⟩
      · rintro ⟨acceptable,rfl⟩
        rw [acceptValue_ok.mpr acceptable,bind_ok]

theorem eagerStep_ok {held next : Held} {field : HeaderField} : eagerStep lookup held field = .ok next ↔
    strictStep lookup held field = .ok next := by
  rw [strictStep_ok]
  unfold eagerStep
  cases lookup field.name with
  | none => simp [eq_comm]
  | some slot =>
    simp only [reduceCtorEq,false_and,false_or,Option.some_inj,exists_eq_left']
    constructor
    · intro stepped
      obtain ⟨_,accepted,stepped⟩ := bind_success stepped
      split at stepped
      · cases stepped
      · rename_i free
        cases stepped
        exact ⟨Option.not_isSome_iff_eq_none.mp free,acceptValue_ok.mp accepted,rfl⟩
    · rintro ⟨free,acceptable,rfl⟩
      rw [acceptValue_ok.mpr acceptable,bind_ok,free]
      rfl

theorem strict_ok (fields : List HeaderField) : ∀ reached, fields.foldlM (strictStep lookup) noneHeld = .ok reached ↔
    Clean lookup fields ∧ reached = heldBy lookup fields := by
  induction fields using List.reverseRecOn with
  | nil =>
    intro reached
    rw [List.foldlM_nil,pure_result,Except.ok.injEq]
    exact ⟨fun same => ⟨⟨fun _ => Nat.zero_le 1,fun _ none => absurd none List.not_mem_nil⟩,same.symm⟩,fun both => both.2.symm⟩
  | append_singleton fields field ih =>
    intro reached
    rw [List.foldlM_append,clean_snoc]
    simp only [List.foldlM_cons,List.foldlM_nil,pure_result,bind_self]
    have held : ∀ slot, lookup field.name = some slot → heldBy lookup fields slot = none →
        (heldBy lookup fields).put slot (some field.value) = heldBy lookup (fields ++ [field]) := by
      intro slot placed free
      funext other
      rw [heldBy_snoc]
      by_cases same : other = slot
      · subst same
        rw [put_same,free,if_pos placed,Option.none_or]
      · rw [put_other _ _ same,if_neg (fun found => same (Option.some_inj.mp (found.symm.trans placed))),Option.or_none]
    have kept : lookup field.name = none → heldBy lookup fields = heldBy lookup (fields ++ [field]) := by
      intro absent
      funext other
      rw [heldBy_snoc,absent,if_neg (by simp),Option.or_none]
    constructor
    · intro ran
      obtain ⟨middle,before,stepped⟩ := bind_success ran
      obtain ⟨clean,rfl⟩ := (ih middle).mp before
      rcases (strictStep_ok lookup).mp stepped with ⟨absent,rfl⟩ | ⟨slot,placed,free,acceptable,rfl⟩
      · exact ⟨⟨clean,fun slot placed => by rw [absent] at placed; cases placed⟩,kept absent⟩
      · refine ⟨⟨clean,fun other found => ?_⟩,held slot placed free⟩
        obtain rfl : slot = other := Option.some_inj.mp (placed.symm.trans found)
        exact ⟨free,acceptable⟩
    · rintro ⟨⟨clean,last⟩,rfl⟩
      rw [(ih (heldBy lookup fields)).mpr ⟨clean,rfl⟩,bind_ok,strictStep_ok]
      cases placed : lookup field.name with
      | none => exact .inl ⟨rfl,(kept placed).symm⟩
      | some slot =>
        obtain ⟨free,acceptable⟩ := last slot placed
        exact .inr ⟨slot,rfl,free,acceptable,(held slot placed free).symm⟩

/-- A field that repeats a place with a value that is too long, behind clean fields. -/
def LongRepetition (fields : List HeaderField) : Prop :=
  ∃ before field after slot, fields = before ++ field :: after ∧ Clean lookup before ∧ lookup field.name = some slot ∧
    (∃ earlier ∈ before, lookup earlier.name = some slot) ∧ forwardingValueLimit < field.value.length

theorem eager_strict (fields : List HeaderField) (held reached : Held) :
    fields.foldlM (eagerStep lookup) held = .ok reached ↔ fields.foldlM (strictStep lookup) held = .ok reached := by
  induction fields generalizing held with
  | nil => rfl
  | cons field fields ih =>
    rw [List.foldlM_cons,List.foldlM_cons]
    constructor
    · intro ran
      obtain ⟨next,stepped,ran⟩ := bind_success ran
      rw [(eagerStep_ok lookup).mp stepped,bind_ok]
      exact (ih next).mp ran
    · intro ran
      obtain ⟨next,stepped,ran⟩ := bind_success ran
      rw [(eagerStep_ok lookup).mpr stepped,bind_ok]
      exact (ih next).mpr ran

theorem steps_differ (held : Held) (field : HeaderField) : strictStep lookup held field = eagerStep lookup held field ∨
    ∃ slot, lookup field.name = some slot ∧ (held slot).isSome ∧ forwardingValueLimit < field.value.length := by
  unfold strictStep eagerStep
  cases lookup field.name with
  | none => exact .inl rfl
  | some slot =>
    dsimp only
    cases taken : (held slot).isSome with
    | false => exact .inl rfl
    | true =>
      by_cases long : forwardingValueLimit < field.value.length
      · exact .inr ⟨slot,rfl,taken,long⟩
      · refine .inl ?_
        rcases acceptValue_short (Nat.not_lt.mp long) with accepted | refused
        · rw [accepted]
          rfl
        · rw [refused]
          rfl

theorem scans_cases (fields : List HeaderField) (held : Held) :
    fields.foldlM (strictStep lookup) held = fields.foldlM (eagerStep lookup) held ∨
      ∃ before field after reached slot, fields = before ++ field :: after ∧ before.foldlM (strictStep lookup) held = .ok reached ∧
        lookup field.name = some slot ∧ (reached slot).isSome ∧ forwardingValueLimit < field.value.length := by
  induction fields generalizing held with
  | nil => exact .inl rfl
  | cons field fields ih =>
    rcases steps_differ lookup held field with same | ⟨slot,placed,taken,long⟩
    · rw [List.foldlM_cons,List.foldlM_cons,← same]
      cases stepped : strictStep lookup held field with
      | error error => exact .inl rfl
      | ok next =>
        rw [bind_ok,bind_ok]
        rcases ih next with equal | ⟨before,late,after,reached,slot,rfl,ran,placed,taken,long⟩
        · exact .inl equal
        · exact .inr ⟨field :: before,late,after,reached,slot,rfl,by rw [List.foldlM_cons,stepped,bind_ok,ran],placed,taken,long⟩
    · exact .inr ⟨[],field,fields,held,slot,rfl,rfl,placed,taken,long⟩

theorem scans_agree (fields : List HeaderField) :
    fields.foldlM (strictStep lookup) noneHeld = fields.foldlM (eagerStep lookup) noneHeld ↔ ¬ LongRepetition lookup fields := by
  constructor
  · rintro same ⟨before,field,after,slot,rfl,clean,placed,⟨earlier,member,early⟩,long⟩
    have ran := (strict_ok lookup before _).mpr ⟨clean,rfl⟩
    have taken : (heldBy lookup before slot).isSome := (heldBy_isSome lookup).mpr ⟨earlier,member,early⟩
    have strict : strictStep lookup (heldBy lookup before) field = invalidForwardingInput := by
      unfold strictStep
      rw [placed]
      exact if_pos taken
    have eager : eagerStep lookup (heldBy lookup before) field =
        .error (.limitExceeded "forwarding_value_bytes" forwardingValueLimit field.value.length) := by
      unfold eagerStep
      rw [placed]
      dsimp only
      rw [acceptValue_long long]
      rfl
    rw [List.foldlM_append,List.foldlM_append,ran,(eager_strict lookup before noneHeld _).mpr ran,bind_ok,bind_ok,List.foldlM_cons,
      List.foldlM_cons,strict,eager] at same
    cases same
  · intro short
    rcases scans_cases lookup fields noneHeld with same | ⟨before,field,after,reached,slot,rfl,ran,placed,taken,long⟩
    · exact same
    · obtain ⟨clean,rfl⟩ := (strict_ok lookup before reached).mp ran
      obtain ⟨earlier,member,early⟩ := (heldBy_isSome lookup).mp taken
      exact absurd ⟨before,field,after,slot,rfl,clean,placed,⟨earlier,member,early⟩,long⟩ short

theorem scans_filter (step : Held → HeaderField → Result Held) (skips : ∀ held field, lookup field.name = none → step held field = .ok held)
    (fields : List HeaderField) (held : Held) :
    fields.foldlM step held = (fields.filter fun field => (lookup field.name).isSome).foldlM step held := by
  induction fields generalizing held with
  | nil => rfl
  | cons field fields ih =>
    cases placed : lookup field.name with
    | none =>
      rw [List.filter_cons_of_neg (by rw [placed]; exact Bool.false_ne_true),List.foldlM_cons,skips held field placed,bind_ok,ih]
    | some slot =>
      rw [List.filter_cons_of_pos (by rw [placed]; rfl),List.foldlM_cons,List.foldlM_cons]
      exact bind_congr_ok fun next _ => ih next

end Scan

end Polyguard.ForwardingAgreement
