import Polyguard.Collections.Trie
import Polyguard.HopByHop.Implementations

/-! Agreement and exactness of the hop-by-hop functions.
Each of them adds, field by field, the fixed name of the field and the members of
a connection value to a set; the representations differ, the ordered set does not. -/
namespace Polyguard.HopByHopAgreement
open Ascii Slices

def isToken (member : List UInt8) : Bool := !member.isEmpty && member.all isTchar

def lowered (member : List UInt8) : List UInt8 := member.map toAsciiLowercase

def fixedNames : List (List UInt8) := HopByHopTokenTrie.fixedHopByHop

/-- The comma members of a value without the blanks around them. -/
def members (value : List UInt8) : List (List UInt8) := (value.splitOn 0x2c).map (trim isOws)

/-- A connection field with a member that is empty or no token. -/
def broken (field : HeaderField) : Bool := field.name == connectionName && !(members field.value).all isToken

def nominations (field : HeaderField) : List (List UInt8) :=
  if field.name == connectionName then (members field.value).map lowered else []

/-- The names one field adds to the removed ones. -/
def contributed (field : HeaderField) : List (List UInt8) :=
  (if fixedNames.contains field.name then [field.name] else []) ++ nominations field

def removed (fields : List HeaderField) : List (List UInt8) := Ordered.ordered (fields.flatMap contributed)

/-- A result for the fields without fault, or the fault of the first broken one. -/
def unlessBroken {α : Type} (offset : Nat) (fields : List HeaderField) (value : α) : Result α :=
  (position broken fields).elim (.ok value) fun index => .error (invalidConnectionToken (offset + index))

/-- What every hop-by-hop function computes. -/
def reference (headers : HeaderBlock) : Result SanitizedHeaders :=
  unlessBroken 0 headers.fields
    ⟨headers.fields.filter fun field => !(removed headers.fields).contains field.name,removed headers.fields⟩

theorem unlessBroken_cons {α : Type} (offset : Nat) (field : HeaderField) (fields : List HeaderField) (value : α) :
    unlessBroken offset (field :: fields) value =
      if broken field then .error (invalidConnectionToken offset) else unlessBroken (offset + 1) fields value := by
  unfold unlessBroken position
  rw [List.findIdx?_cons]
  cases broken field with
  | true => rfl
  | false =>
    cases fields.findIdx? broken with
    | none => rfl
    | some index =>
      have shift : offset + (index + 1) = offset + 1 + index := by omega
      simp [shift]

theorem unlessBroken_bind {α β : Type} (offset : Nat) (fields : List HeaderField) (value : α) (next : α → Result β)
    (result : β) (same : next value = .ok result) :
    (unlessBroken offset fields value >>= next) = unlessBroken offset fields result := by
  unfold unlessBroken
  cases position broken fields with
  | none => exact same
  | some index => rfl

/-- A loop over the fields, from what it does with one of them. -/
theorem fields_loop {σ : Type} {step : σ → HeaderField × Nat → Result σ} {add : σ → List UInt8 → σ}
    {given : HeaderField → List (List UInt8)}
    (round : ∀ state field index, step state (field,index) =
      if broken field then .error (invalidConnectionToken index) else .ok ((given field).foldl add state))
    (fields : List HeaderField) (offset : Nat) (state : σ) :
    (fields.zipIdx offset).foldlM step state = unlessBroken offset fields ((fields.flatMap given).foldl add state) := by
  induction fields generalizing offset state with
  | nil => rfl
  | cons field fields ih =>
    rw [List.zipIdx_cons,List.foldlM_cons,round,unlessBroken_cons]
    cases broken field with
    | true => rfl
    | false =>
      simp only [Bool.false_eq_true,if_false,bind_ok,List.flatMap_cons,List.foldl_append]
      exact ih (offset + 1) _

/-- A loop over the members of a value, from what it does with one of them. -/
theorem members_loop {σ : Type} {step : σ → List UInt8 → Result σ} {add : σ → List UInt8 → σ} {index : Nat}
    (round : ∀ state raw, step state raw =
      if isToken (trim isOws raw) then .ok (add state (lowered (trim isOws raw))) else .error (invalidConnectionToken index))
    (raws : List (List UInt8)) (state : σ) :
    raws.foldlM step state =
      if (raws.map (trim isOws)).all isToken then .ok (((raws.map (trim isOws)).map lowered).foldl add state)
      else .error (invalidConnectionToken index) := by
  induction raws generalizing state with
  | nil => rfl
  | cons raw raws ih =>
    rw [List.foldlM_cons,round]
    cases accepted : isToken (trim isOws raw) with
    | false => simp [accepted]
    | true => simp only [if_true,bind_ok,ih,List.map_cons,List.all_cons,accepted,Bool.true_and,List.foldl_cons]

theorem members_position (value : List UInt8) :
    members value = trim isOws (value.take ((position (· == 0x2c) value).getD value.length)) ::
      (position (· == 0x2c) value).elim [] fun index => members (value.drop (index + 1)) := by
  unfold members
  rw [splitOn_position]
  cases position (· == 0x2c) value with
  | none => simp
  | some index => simp

theorem contributed_fold {σ : Type} (add : σ → List UInt8 → σ) (field : HeaderField) (state : σ) :
    (contributed field).foldl add state =
      (nominations field).foldl add (if fixedNames.contains field.name then add state field.name else state) := by
  unfold contributed
  rw [List.foldl_append]
  split <;> rfl

theorem connection_fixed : fixedNames.contains connectionName = true := by decide

theorem ows_tchar (byte : UInt8) (blank : isOws byte) : isTchar byte = false := by
  revert blank
  exact forall_byte (p := fun b => isOws b → isTchar b = false) (by decide) byte

theorem refused_token (member : List UInt8) : (member.isEmpty || !member.all isTchar) = !isToken member := by
  unfold isToken
  cases member.isEmpty <;> cases member.all isTchar <;> rfl

theorem lowered_ascii {member : List UInt8} (token : isToken member) : ∀ b ∈ lowered member, isAscii b := by
  intro b among
  obtain ⟨byte,inside,rfl⟩ := List.mem_map.mp among
  unfold isToken at token
  rw [Bool.and_eq_true] at token
  exact toAsciiLowercase_ascii (tchar_ascii byte (List.all_eq_true.mp token.2 byte inside))

theorem lowered_chars {member : List UInt8} (token : isToken member) : collectChars (lowered member) = lowered member := by
  unfold isToken at token
  rw [Bool.and_eq_true] at token
  exact name_chars token.2

theorem round_other {σ : Type} (add : σ → List UInt8 → σ) {field : HeaderField} (other : (field.name == connectionName) = false)
    (index : Nat) (state : σ) :
    (if broken field then .error (invalidConnectionToken index) else .ok ((contributed field).foldl add state)) =
      (.ok (if fixedNames.contains field.name then add state field.name else state) : Result σ) := by
  rw [contributed_fold]
  simp [broken,nominations,other]

theorem round_connection {σ : Type} (add : σ → List UInt8 → σ) {field : HeaderField}
    (same : (field.name == connectionName) = true) (index : Nat) (state : σ) :
    (if broken field then .error (invalidConnectionToken index) else .ok ((contributed field).foldl add state)) =
      (if (members field.value).all isToken then .ok (((members field.value).map lowered).foldl add (add state field.name))
        else .error (invalidConnectionToken index) : Result σ) := by
  have fixed : fixedNames.contains field.name = true := by
    rw [beq_iff_eq] at same
    rw [same]
    exact connection_fixed
  rw [contributed_fold,fixed,if_pos rfl]
  unfold broken nominations
  rw [same]
  cases (members field.value).all isToken <;> rfl

theorem fixed_cases {name : List UInt8} (fixed : fixedNames.contains name) :
    name = ascii "connection" ∨ name = ascii "proxy-connection" ∨ name = ascii "keep-alive" ∨
      name = ascii "transfer-encoding" ∨ name = ascii "te" ∨ name = ascii "trailer" ∨ name = ascii "upgrade" ∨
      name = ascii "proxy-authenticate" ∨ name = ascii "proxy-authorization" := by
  simpa [fixedNames,HopByHopTokenTrie.fixedHopByHop,connectionName] using fixed

theorem lookup_absent {ρ : Type} {key : ρ → List UInt8} {rules : List ρ} (keys : rules.map key = fixedNames)
    {name : List UInt8} (absent : fixedNames.contains name = false) : rules.find? (fun rule => key rule == name) = none := by
  rw [List.find?_eq_none]
  intro rule member
  rw [beq_iff_eq]
  rintro rfl
  have listed : key rule ∈ fixedNames := by
    rw [← keys]
    exact List.mem_map_of_mem member
  simp [listed] at absent

theorem table_policy (name : List UInt8) :
    HopByHopRuleTable.fieldPolicy name =
      if fixedNames.contains name then some (if name == connectionName then .connectionList else .alwaysRemove)
      else none := by
  cases fixed : fixedNames.contains name with
  | true => rcases fixed_cases fixed with rfl | rfl | rfl | rfl | rfl | rfl | rfl | rfl | rfl <;> rfl
  | false =>
    have missing := lookup_absent (show HopByHopRuleTable.hopByHopRules.map (·.1) = fixedNames by decide) fixed
    rw [List.find?_eq_none] at missing
    apply List.findSome?_eq_none_iff.mpr
    intro rule member
    exact if_neg (missing rule member)

theorem plan_rule (name : List UInt8) :
    HopByHopSortedPlan.ruleFor name =
      if fixedNames.contains name then some ⟨name,if name == connectionName then .removeAndNominate else .remove⟩
      else none := by
  cases fixed : fixedNames.contains name with
  | true => rcases fixed_cases fixed with rfl | rfl | rfl | rfl | rfl | rfl | rfl | rfl | rfl <;> rfl
  | false => exact lookup_absent (show HopByHopSortedPlan.headerRules.map (·.name) = fixedNames by decide) fixed

theorem pipeline_rule (name : List UInt8) :
    HopByHopTypedPipeline.headerRules.find? (·.name == name) =
      if fixedNames.contains name then some ⟨name,if name == connectionName then .readConnectionTokens else .drop⟩
      else none := by
  cases fixed : fixedNames.contains name with
  | true => rcases fixed_cases fixed with rfl | rfl | rfl | rfl | rfl | rfl | rfl | rfl | rfl <;> rfl
  | false => exact lookup_absent (show HopByHopTypedPipeline.headerRules.map (·.name) = fixedNames by decide) fixed

theorem composable_fixed (name : List UInt8) : HopByHopComposable.isFixedHopByHop name = fixedNames.contains name := by
  have sorted : HopByHopComposable.fixedHopByHopNames.Pairwise (· ≤ ·) := by decide
  have same : HopByHopComposable.fixedHopByHopNames.Perm fixedNames := by decide
  rw [Bool.eq_iff_iff,List.contains_iff_mem,← same.mem_iff]
  exact Ordered.binarySearch_mem sorted name

theorem table_round (names : List (List UInt8)) (field : HeaderField) (index : Nat) :
    ((HopByHopRuleTable.fieldPolicy field.name).elim (.ok names) fun policy =>
        HopByHopRuleTable.planField names (index,field,policy)) =
      if broken field then .error (invalidConnectionToken index)
      else .ok ((contributed field).foldl Ordered.insert names) := by
  rw [table_policy]
  cases same : field.name == connectionName with
  | true =>
    have fixed : fixedNames.contains field.name = true := by
      rw [beq_iff_eq.mp same]
      exact connection_fixed
    rw [round_connection _ same,fixed]
    simp only [if_true,Option.elim_some,HopByHopRuleTable.planField,HopByHopRuleTable.addConnectionNominations]
    rw [List.foldlM_map]
    apply members_loop
    intro state raw
    have trims : HopByHopRuleTable.trimOws raw = trim isOws raw := trim_positions isOws raw
    rw [trims]
    unfold HopByHopRuleTable.nominate
    rw [refused_token]
    cases token : isToken (trim isOws raw) with
    | true =>
      have chars := lowered_chars token
      unfold lowered at chars ⊢
      simp [chars]
    | false => rfl
  | false =>
    rw [round_other _ same]
    cases fixedNames.contains field.name with
    | true => rfl
    | false => rfl

theorem table_reference (headers : HeaderBlock) : HopByHopRuleTable.removeHopByHopHeaders headers = reference headers := by
  have plan : HopByHopRuleTable.planFromHeaders headers = unlessBroken 0 headers.fields (removed headers.fields) := by
    unfold HopByHopRuleTable.planFromHeaders removed Ordered.ordered
    rw [List.foldlM_filterMap]
    apply fields_loop
    intro state field index
    rw [← table_round]
    dsimp only
    cases HopByHopRuleTable.fieldPolicy field.name with
    | none => rfl
    | some policy => rfl
  unfold HopByHopRuleTable.removeHopByHopHeaders reference
  rw [plan]
  exact unlessBroken_bind _ _ _ _ _ rfl

theorem composable_tchar (byte : UInt8) :
    (!isAsciiAlphanumeric byte && !HopByHopComposable.tokenPunctuation.contains byte) = !isTchar byte :=
  forall_byte (p := fun b => (!isAsciiAlphanumeric b && !HopByHopComposable.tokenPunctuation.contains b) = !isTchar b)
    (by decide) byte

theorem composable_token (member : List UInt8) :
    HopByHopComposable.validatedCanonicalToken member = if isToken member then some (lowered member) else none := by
  have foreign : member.any (fun byte => !isAsciiAlphanumeric byte &&
      !HopByHopComposable.tokenPunctuation.contains byte) = !member.all isTchar := by
    simp only [composable_tchar,List.not_all_eq_any_not]
  unfold HopByHopComposable.validatedCanonicalToken
  rw [foreign]
  cases token : isToken member with
  | true =>
    have chars := lowered_chars token
    unfold isToken at token
    rw [Bool.and_eq_true,Bool.not_eq_true'] at token
    unfold lowered at chars ⊢
    simp [token,chars]
  | false =>
    have refused := refused_token member
    rw [token] at refused
    cases empty : member.isEmpty with
    | true => rfl
    | false =>
      rw [empty,Bool.false_or] at refused
      simp [refused]

/-- Insertion into the hash set. -/
def hashed (names : List (List UInt8)) (name : List UInt8) : List (List UInt8) := names.insert name

theorem composable_value (index fuel : Nat) (value : List UInt8) (enough : value.length < fuel)
    (removals : List (List UInt8)) :
    HopByHopComposable.addConnectionValue index fuel value removals =
      if (members value).all isToken then .ok (((members value).map lowered).foldl hashed removals)
      else .error (invalidConnectionToken index) := by
  induction fuel generalizing value removals with
  | zero => omega
  | succ fuel ih =>
    have strips (member : List UInt8) : HopByHopComposable.stripOptionalWhitespace member = trim isOws member := rfl
    unfold HopByHopComposable.addConnectionValue
    rw [members_position]
    simp only [strips,composable_token]
    cases token : isToken (trim isOws (value.take ((position (· == 0x2c) value).getD value.length))) with
    | false => simp [token]
    | true =>
      cases found : position (· == 0x2c) value with
      | none =>
        rw [found,Option.getD_none,List.take_length] at token
        simp [token,hashed]
      | some comma =>
        rw [found,Option.getD_some] at token
        have inside := position_lt found
        have rest := ih (value.drop (comma + 1)) (by rw [List.length_drop]; omega)
          (removals.insert (lowered (trim isOws (value.take comma))))
        simp only [if_true,rest,Option.elim_some,List.all_cons,Option.getD_some,token,Bool.true_and,List.map_cons,
          List.foldl_cons,hashed]

theorem composable_round (removals : List (List UInt8)) (field : HeaderField) (index : Nat) :
    HopByHopComposable.discoverField removals (field,index) =
      if broken field then .error (invalidConnectionToken index) else .ok ((contributed field).foldl hashed removals) := by
  unfold HopByHopComposable.discoverField
  simp only [composable_fixed]
  cases same : field.name == connectionName with
  | true =>
    have fixed : fixedNames.contains field.name = true := by
      rw [beq_iff_eq.mp same]
      exact connection_fixed
    have equal : (field.name != connectionName) = false := by simpa using same
    rw [round_connection _ same,fixed,equal]
    simp only [if_true,Bool.false_eq_true,if_false]
    exact composable_value index _ field.value (by omega) _
  | false =>
    have differ : (field.name != connectionName) = true := by simpa using same
    rw [round_other _ same,differ,if_pos rfl]
    rfl

theorem hashed_set (names reached : List (List UInt8)) (distinct : reached.Nodup) :
    (names.foldl hashed reached).Nodup ∧ ∀ name, name ∈ names.foldl hashed reached ↔ name ∈ reached ∨ name ∈ names := by
  induction names generalizing reached with
  | nil => simp [distinct]
  | cons first names ih =>
    obtain ⟨nodup,mem⟩ := ih (hashed reached first) (List.Nodup.insert distinct)
    refine ⟨nodup,fun name => ?_⟩
    rw [List.foldl_cons,mem,hashed,List.mem_insert_iff,List.mem_cons]
    tauto

theorem composable_reference (headers : HeaderBlock) : HopByHopComposable.removeHopByHopHeaders headers = reference headers := by
  obtain ⟨distinct,same⟩ := hashed_set (headers.fields.flatMap contributed) [] List.nodup_nil
  have names : Ordered.sort ((headers.fields.flatMap contributed).foldl hashed []) = removed headers.fields := by
    rw [Ordered.sort_ordered distinct]
    exact Ordered.ordered_congr (by simpa using same)
  have survivors : HopByHopComposable.copySurvivors headers.fields ((headers.fields.flatMap contributed).foldl hashed []) =
      headers.fields.filter fun field => !(removed headers.fields).contains field.name := by
    unfold HopByHopComposable.copySurvivors
    simp only [List.contains_eq_mem,same,removed,Ordered.mem_ordered,List.not_mem_nil,false_or]
  unfold HopByHopComposable.removeHopByHopHeaders HopByHopComposable.discoverRemovals reference
  rw [fields_loop composable_round]
  apply unlessBroken_bind
  rw [names,survivors]

/-- Behind a byte that ends a token too early, the next byte that is no blank is no comma. -/
theorem scan_stops {text : List UInt8} (comma : (0x2c : UInt8) ∉ text) (ends : ∃ b ∈ text, isOws b = false)
    (rest : List UInt8) : ∃ byte after, (text ++ rest).dropWhile isOws = byte :: after ∧ (byte == 0x2c) = false := by
  rcases first_hit (fun b => !isOws b) text with blank | ⟨before,hit,after,rfl,miss,found⟩
  · obtain ⟨b,member,inside⟩ := ends
    have edge := blank b member
    simp [inside] at edge
  · refine ⟨hit,after ++ rest,?_,?_⟩
    · rw [List.append_assoc,List.cons_append]
      exact dropWhile_append_hit _ (by simpa using miss) (by simpa using found)
    · rw [beq_eq_false_iff_ne]
      rintro rfl
      exact comma (by simp)

theorem nextMember_eq (front rest : List UInt8) (comma : (0x2c : UInt8) ∉ front)
    (shape : rest = [] ∨ ∃ after, rest = 0x2c :: after) :
    HopByHopTypedPipeline.nextMember (front ++ rest) =
      if isToken (trim isOws front) then
        (some (trim isOws front),if rest.isEmpty then .complete else .memberStart (rest.drop 1))
      else (none,.rejected) := by
  have blanks : rest.dropWhile isOws = rest := by
    rcases shape with rfl | ⟨after,rfl⟩
    · rfl
    · exact List.dropWhile_cons_of_neg (by decide)
  have noToken : ∀ trailing : List UInt8, (∀ b ∈ trailing, isOws b) → (trailing ++ rest).takeWhile isTchar = [] ∧
      (trailing ++ rest).dropWhile isTchar = trailing ++ rest := by
    intro trailing edge
    rcases trailing with _ | ⟨blank,trailing⟩
    · rcases shape with rfl | ⟨after,rfl⟩
      · exact ⟨rfl,rfl⟩
      · exact ⟨List.takeWhile_cons_of_neg (by decide),List.dropWhile_cons_of_neg (by decide)⟩
    · have stop : isTchar blank = false := ows_tchar blank (edge blank (by simp))
      rw [List.cons_append]
      exact ⟨List.takeWhile_cons_of_neg (by simp [stop]),List.dropWhile_cons_of_neg (by simp [stop])⟩
  unfold HopByHopTypedPipeline.nextMember
  rcases edge_cases isOws front with edge | ⟨leading,core,trailing,rfl,before,after,⟨first,tail,same,starts⟩,ends⟩
  · have nothing := (noToken [] (by simp)).1
    rw [List.nil_append] at nothing
    dsimp only
    rw [trim_edge edge,List.dropWhile_append_of_pos edge,blanks,nothing]
    rfl
  · rw [trim_core before after ⟨first,tail,same,starts⟩ ends]
    have fromCore : (leading ++ (core ++ trailing) ++ rest).dropWhile isOws = core ++ (trailing ++ rest) := by
      rw [same,List.append_assoc,List.append_assoc,List.cons_append]
      exact dropWhile_append_hit _ before starts
    have nonempty : core.isEmpty = false := by rw [same]; rfl
    dsimp only
    rw [fromCore]
    cases tokens : core.all isTchar with
    | true =>
      have token : isToken core = true := by simp [isToken,nonempty,tokens]
      rw [List.takeWhile_append_of_pos (List.all_eq_true.mp tokens),List.dropWhile_append_of_pos (List.all_eq_true.mp tokens),
        (noToken trailing after).1,(noToken trailing after).2,List.dropWhile_append_of_pos after,blanks,
        List.append_nil,nonempty,token]
      rcases shape with rfl | ⟨behind,rfl⟩
      · rfl
      · rfl
    | false =>
      have token : isToken core = false := by simp [isToken,tokens]
      rcases first_hit (fun b => !isTchar b) core with all | ⟨good,bad,more,split,good',bad'⟩
      · have every : core.all isTchar = true := List.all_eq_true.mpr (by simpa using all)
        rw [every] at tokens
        cases tokens
      · have goods : ∀ b ∈ good, isTchar b := by simpa using good'
        have stop : isTchar bad = false := by simpa using bad'
        rw [token,split,List.append_assoc,List.cons_append,takeWhile_append_hit _ goods stop,
          dropWhile_append_hit _ goods stop]
        cases good with
        | nil => rfl
        | cons head good =>
          have inside : (0x2c : UInt8) ∉ bad :: more := by
            intro member
            apply comma
            rw [split]
            simp only [List.mem_append]
            exact .inr (.inl (.inr member))
          have last : ∃ b ∈ bad :: more, isOws b = false := by
            obtain ⟨init,last,final,closed⟩ := ends
            refine ⟨last,?_,closed⟩
            have tail := congrArg List.getLast? (split.symm.trans final)
            rw [List.getLast?_append_of_ne_nil _ (by simp),List.getLast?_concat] at tail
            exact List.mem_of_getLast? tail
          obtain ⟨byte,behind,dropped,other⟩ := scan_stops inside last (trailing ++ rest)
          rw [List.cons_append] at dropped
          rw [dropped]
          simp [other]

theorem pipeline_value (index fuel : Nat) (value : List UInt8) (enough : value.length + 2 ≤ fuel)
    (names : List (List UInt8)) :
    HopByHopTypedPipeline.foldMembers index fuel (.memberStart value) names =
      if (members value).all isToken then .ok (((members value).map lowered).foldl Ordered.insert names)
      else .error (invalidConnectionToken index) := by
  induction fuel generalizing value names with
  | zero => omega
  | succ fuel ih =>
    have chars {member : List UInt8} (token : isToken member) :
        HopByHopTypedPipeline.lowercaseToken member = lowered member := lowered_chars token
    unfold HopByHopTypedPipeline.foldMembers
    rw [members_position]
    rcases first_hit (· == 0x2c) value with miss | ⟨front,hit,rest,rfl,miss,found⟩
    · have absent : (0x2c : UInt8) ∉ value := fun member => by simpa using miss _ member
      have scanned := nextMember_eq value [] absent (.inl rfl)
      rw [List.append_nil] at scanned
      rw [position_none miss]
      dsimp only
      rw [scanned,Option.getD_none,List.take_length]
      cases token : isToken (trim isOws value) with
      | false => simp [token]
      | true =>
        obtain ⟨fuel,rfl⟩ : ∃ less, fuel = less + 1 := ⟨fuel - 1,by omega⟩
        simp [token,HopByHopTypedPipeline.foldMembers,chars token]
    · obtain rfl : hit = 0x2c := by simpa using found
      have absent : (0x2c : UInt8) ∉ front := fun member => by simpa using miss _ member
      have scanned := nextMember_eq front (0x2c :: rest) absent (.inr ⟨rest,rfl⟩)
      rw [position_append rest miss found]
      dsimp only
      rw [scanned,Option.getD_some,Option.elim_some,take_hit,drop_hit]
      cases token : isToken (trim isOws front) with
      | false => simp [token]
      | true =>
        have size : rest.length + 2 ≤ fuel := by
          simp only [List.length_append,List.length_cons] at enough
          omega
        simp only [if_true,List.isEmpty_cons,Bool.false_eq_true,if_false,List.drop_one,List.tail_cons,ih rest size,
          chars token,List.all_cons,token,Bool.true_and,List.map_cons,List.foldl_cons]

theorem pipeline_round (names : List (List UInt8)) (field : HeaderField) (index : Nat) :
    HopByHopTypedPipeline.applyEvent names (HopByHopTypedPipeline.HeaderEvent.classify index field) =
      if broken field then .error (invalidConnectionToken index)
      else .ok ((contributed field).foldl Ordered.insert names) := by
  unfold HopByHopTypedPipeline.HeaderEvent.classify
  rw [pipeline_rule]
  cases same : field.name == connectionName with
  | true =>
    have fixed : fixedNames.contains field.name = true := by
      rw [beq_iff_eq.mp same]
      exact connection_fixed
    rw [round_connection _ same,fixed,beq_iff_eq.mp same]
    exact pipeline_value index _ field.value (Nat.le_refl _) _
  | false =>
    rw [round_other _ same]
    cases fixedNames.contains field.name with
    | true => rfl
    | false => rfl

theorem pipeline_ledger (fields : List HeaderField) : (fields.zipIdx.map fun (field,index) =>
    HopByHopTypedPipeline.HeaderEvent.classify index field).foldlM HopByHopTypedPipeline.applyEvent [] =
      unlessBroken 0 fields (removed fields) := by
  rw [List.foldlM_map]
  apply fields_loop
  intro state field index
  exact pipeline_round state field index

theorem pipeline_reference (headers : HeaderBlock) :
    HopByHopTypedPipeline.removeHopByHopHeaders headers = reference headers := by
  unfold HopByHopTypedPipeline.removeHopByHopHeaders reference
  rw [pipeline_ledger]
  exact unlessBroken_bind _ _ _ _ _ rfl

theorem plan_trimmed (raw : List UInt8) :
    HopByHopSortedPlan.trimmedMember raw = if (trim isOws raw).isEmpty then none else some (trim isOws raw) := by
  have trims := trim_positions isOws raw
  unfold HopByHopSortedPlan.trimmedMember
  rcases edge_cases isOws raw with edge | ⟨leading,core,trailing,shape,before,after,starts,ends⟩
  · have missing : position (fun byte => !isOws byte) raw = none := position_none (by simpa using edge)
    rw [missing,trim_edge edge]
    rfl
  · have cored : trim isOws raw = core := by
      rw [shape]
      exact trim_core before after starts ends
    obtain ⟨first,tail,same,inside⟩ := starts
    have member : first ∈ raw := by simp [shape,same]
    cases found : position (fun byte => !isOws byte) raw with
    | none =>
      have blank := position_eq_none.mp found first member
      simp [inside] at blank
    | some start =>
      cases last : rposition (fun byte => !isOws byte) raw with
      | none =>
        have blank := rposition_eq_none.mp last first member
        simp [inside] at blank
      | some stop =>
        simp only [found,last,Option.getD_some,Option.map_some] at trims
        simp [trims,cored,same]

theorem plan_member (index : Nat) (raw : List UInt8) :
    HopByHopSortedPlan.admitMember (index,HopByHopSortedPlan.ConnectionMember.classify raw) =
      if isToken (trim isOws raw) then .ok (lowered (trim isOws raw)) else .error (invalidConnectionToken index) := by
  have chars {member : List UInt8} (token : isToken member) :
      HopByHopSortedPlan.lowercaseAscii member = lowered member := lowered_chars token
  unfold HopByHopSortedPlan.ConnectionMember.classify
  rw [plan_trimmed]
  cases empty : (trim isOws raw).isEmpty with
  | true => simp [isToken,empty,HopByHopSortedPlan.admitMember]
  | false =>
    cases tokens : (trim isOws raw).all isTchar with
    | true =>
      have token : isToken (trim isOws raw) = true := by simp [isToken,empty,tokens]
      simp [tokens,token,HopByHopSortedPlan.admitMember,chars token]
    | false => simp [isToken,tokens,HopByHopSortedPlan.admitMember]

theorem plan_members (index : Nat) (raws : List (List UInt8)) :
    (raws.map fun raw => (index,HopByHopSortedPlan.ConnectionMember.classify raw)).mapM HopByHopSortedPlan.admitMember =
      if (raws.map (trim isOws)).all isToken then .ok ((raws.map (trim isOws)).map lowered)
      else .error (invalidConnectionToken index) := by
  induction raws with
  | nil => rfl
  | cons raw raws ih =>
    rw [List.map_cons,List.mapM_cons,plan_member,ih]
    cases token : isToken (trim isOws raw) with
    | false => simp [token]
    | true =>
      cases rest : (raws.map (trim isOws)).all isToken with
      | false =>
        simp only [if_true,bind_ok,Bool.false_eq_true,if_false,bind_error,List.map_cons,List.all_cons,rest,Bool.and_false]
      | true =>
        simp only [if_true,bind_ok,pure_result,List.map_cons,List.all_cons,rest,token,Bool.and_true]

theorem plan_nominates (field : HeaderField) : HopByHopSortedPlan.nominates field = (field.name == connectionName) := by
  unfold HopByHopSortedPlan.nominates
  rw [plan_rule]
  cases same : field.name == connectionName with
  | true =>
    rw [beq_iff_eq.mp same,connection_fixed]
    rfl
  | false =>
    cases fixedNames.contains field.name with
    | true => rfl
    | false => rfl

theorem plan_fields (fields : List HeaderField) (offset : Nat) :
    (((fields.zipIdx offset).filter fun (field,_) => HopByHopSortedPlan.nominates field).flatMap fun (field,index) =>
      (field.value.splitOn 0x2c).map fun raw => (index,HopByHopSortedPlan.ConnectionMember.classify raw)).mapM
        HopByHopSortedPlan.admitMember = unlessBroken offset fields (fields.flatMap nominations) := by
  induction fields generalizing offset with
  | nil => rfl
  | cons field fields ih =>
    rw [List.zipIdx_cons,unlessBroken_cons,List.flatMap_cons]
    have chosen := plan_nominates field
    unfold broken nominations
    cases same : field.name == connectionName with
    | false =>
      rw [List.filter_cons_of_neg (by simp [chosen,same])]
      simp only [Bool.false_eq_true,if_false,Bool.false_and,List.nil_append]
      exact ih (offset + 1)
    | true =>
      rw [List.filter_cons_of_pos (by simp [chosen,same])]
      simp only [if_true,List.flatMap_cons,List.mapM_append,plan_members,Bool.true_and]
      have rest := ih (offset + 1)
      cases tokens : (members field.value).all isToken with
      | false =>
        unfold members at tokens
        rw [tokens]
        rfl
      | true =>
        unfold members at tokens ⊢
        rw [tokens,if_pos rfl,bind_ok,rest]
        simp only [Bool.not_true,Bool.false_eq_true,if_false]
        exact unlessBroken_bind _ _ _ _ _ rfl

theorem plan_reference (headers : HeaderBlock) : HopByHopSortedPlan.removeHopByHopHeaders headers = reference headers := by
  have fixed : headers.fields.filterMap (fun field => (HopByHopSortedPlan.ruleFor field.name).map (·.name)) =
      headers.fields.flatMap fun field => if fixedNames.contains field.name then [field.name] else [] := by
    rw [List.filterMap_eq_flatMap_toList]
    congr 1
    funext field
    rw [plan_rule]
    cases fixedNames.contains field.name with
    | true => rfl
    | false => rfl
  have names : Ordered.dedup (Ordered.sort ((headers.fields.flatMap fun field =>
      if fixedNames.contains field.name then [field.name] else []) ++ headers.fields.flatMap nominations)) =
        removed headers.fields := by
    rw [Ordered.sort_dedup]
    apply Ordered.ordered_congr
    intro name
    simp only [List.mem_append,List.mem_flatMap,contributed]
    constructor
    · rintro (⟨field,member,inside⟩ | ⟨field,member,inside⟩)
      · exact ⟨field,member,.inl inside⟩
      · exact ⟨field,member,.inr inside⟩
    · rintro ⟨field,member,inside | inside⟩
      · exact .inl ⟨field,member,inside⟩
      · exact .inr ⟨field,member,inside⟩
  have compiled : HopByHopSortedPlan.compile headers = unlessBroken 0 headers.fields (removed headers.fields) := by
    unfold HopByHopSortedPlan.compile
    dsimp only
    rw [plan_fields,fixed]
    exact unlessBroken_bind _ _ _ _ _ (congrArg Except.ok names)
  have search (name : List UInt8) :
      HopByHopSortedPlan.removes (removed headers.fields) name = (removed headers.fields).contains name := by
    rw [Bool.eq_iff_iff,List.contains_iff_mem]
    exact Ordered.binarySearch_mem ((Ordered.strict_ordered _).imp le_of_lt) name
  unfold HopByHopSortedPlan.removeHopByHopHeaders reference
  rw [compiled]
  apply unlessBroken_bind
  simp only [search]

open HopByHopTokenTrie in
/-- The edges of the token trie. -/
def tokenLayout : Trie.Layout UInt8 TokenTrie := Trie.edgeLayout TrieNode.children

open HopByHopTokenTrie in
/-- The trie holds the names. -/
structure Represents (nodes : TokenTrie) (names : List (List UInt8)) : Prop where
  valid : tokenLayout.Valid nodes
  holds : ∀ name, tokenLayout.Holds nodes (terminalAt nodes) name ↔ name ∈ names

open HopByHopTokenTrie in
theorem trie_round (nodes : TokenTrie) (index : Nat) (byte : UInt8) (_ : True) (valid : tokenLayout.Valid nodes)
    (inside : index < tokenLayout.size nodes) :
    True ∧ tokenLayout.Extends nodes (insertByte (nodes,index) byte).1 ∧
      tokenLayout.child (insertByte (nodes,index) byte).1 index byte = some (insertByte (nodes,index) byte).2 := by
  unfold insertByte
  dsimp only
  cases found : childOf nodes index byte with
  | some next => exact ⟨trivial,.refl valid,found⟩
  | none =>
    refine ⟨trivial,?_⟩
    exact Trie.edge_link TrieNode.default rfl (fun edge node => { node with children := node.children ++ [edge] })
      (fun _ _ => rfl) valid inside found

open HopByHopTokenTrie in
/-- The loop of an insertion leaves the marks alone. -/
theorem trie_marks (token : List UInt8) (state : TokenTrie × Nat) (index : Nat) :
    terminalAt (token.foldl insertByte state).1 index = terminalAt state.1 index := by
  induction token generalizing state with
  | nil => rfl
  | cons byte token ih =>
    rw [List.foldl_cons,ih]
    unfold insertByte
    cases childOf state.1 state.2 byte with
    | some next => rfl
    | none =>
      apply Trie.link_marks
      · rfl
      · intro node
        rfl

open HopByHopTokenTrie in
theorem trie_insert {nodes : TokenTrie} {names : List (List UInt8)} (represents : Represents nodes names)
    (token : List UInt8) :
    ((TokenTrie.insert nodes token).2 = true ↔ token ∉ names) ∧ ∀ names', (∀ name, name ∈ names' ↔ name = token ∨ name ∈ names) →
      Represents (TokenTrie.insert nodes token).1 names' := by
  obtain ⟨valid,holds⟩ := represents
  have rooted : 0 < tokenLayout.size nodes := valid.rooted
  obtain ⟨-,later,reached⟩ := Trie.Layout.foldl_walk (fun _ => True) trie_round token nodes 0 trivial valid rooted
  have unchanged := trie_marks token (nodes,0)
  have marks : ∀ node, terminalAt nodes node → node < tokenLayout.size nodes := by
    intro node marked
    by_contra outside
    unfold terminalAt at marked
    rw [List.getElem?_eq_none (by unfold tokenLayout Trie.edgeLayout at outside; simpa using outside)] at marked
    cases marked
  unfold TokenTrie.insert
  generalize token.foldl insertByte (nodes,0) = walked at later reached unchanged ⊢
  obtain ⟨after,target⟩ := walked
  have known := later.marked_iff marks reached
  rw [holds] at known
  dsimp only at unchanged reached later ⊢
  rw [unchanged]
  cases marked : terminalAt nodes target with
  | true =>
    have marks' (node : Nat) : terminalAt after node ↔ terminalAt nodes node ∨ node = target := by
      rw [unchanged]
      constructor
      · exact .inl
      · rintro (old | rfl)
        · exact old
        · exact marked
    refine ⟨by simp [known.mp marked],fun names' same => ⟨later.valid,fun name => ?_⟩⟩
    exact (later.holds_iff marks reached marks' name).trans ((or_congr_right (holds name)).trans (same name).symm)
  | false =>
    have inside : target < after.length := later.valid.walk_lt reached
    have absent : token ∉ names := fun member => by simp [known.mpr member] at marked
    have edges : tokenLayout.child (after.modify target fun node => { node with terminal := true }) =
        tokenLayout.child after :=
      Trie.edge_mark (fun node : TrieNode => { node with terminal := true }) (fun _ => rfl) after target
    have later' : tokenLayout.Extends nodes (after.modify target fun node => { node with terminal := true }) :=
      later.transfer (by simp [tokenLayout,Trie.edgeLayout]) edges
    have marks' (node : Nat) : terminalAt (after.modify target fun node => { node with terminal := true }) node ↔
        terminalAt nodes node ∨ node = target := by
      rw [← unchanged]
      exact Trie.set_marks (fun _ => rfl) inside node
    rw [← edges] at reached
    refine ⟨by simp [absent],fun names' same => ⟨later'.valid,fun name => ?_⟩⟩
    exact (later'.holds_iff marks reached marks' name).trans ((or_congr_right (holds name)).trans (same name).symm)

open HopByHopTokenTrie in
theorem trie_contains {nodes : TokenTrie} {names : List (List UInt8)} (represents : Represents nodes names)
    (token : List UInt8) : TokenTrie.contains nodes token = names.contains token := by
  have walks (index : Nat) (word : List UInt8) :
      containsFrom nodes index word = (Trie.walk (tokenLayout.child nodes) index word).any (terminalAt nodes) := by
    induction word generalizing index with
    | nil => rfl
    | cons byte word ih =>
      unfold containsFrom Trie.walk
      rw [show tokenLayout.child nodes index byte = childOf nodes index byte from rfl]
      cases childOf nodes index byte with
      | none => rfl
      | some next => exact ih next
  rw [Bool.eq_iff_iff,List.contains_iff_mem,← represents.holds]
  unfold TokenTrie.contains
  rw [walks,Option.any_eq_true]
  rfl

open HopByHopTokenTrie in
/-- One name added to the trie and to the list of names found so far. -/
def recorded (state : TokenTrie × List (List UInt8)) (name : List UInt8) : TokenTrie × List (List UInt8) :=
  ((TokenTrie.insert state.1 name).1,if (TokenTrie.insert state.1 name).2 then state.2 ++ [name] else state.2)

open HopByHopTokenTrie in
theorem trie_member (index : Nat) (state : TokenTrie × List (List UInt8)) (raw : List UInt8) :
    collectMember index state raw =
      if isToken (trim isOws raw) then .ok (recorded state (lowered (trim isOws raw)))
      else .error (invalidConnectionToken index) := by
  have trims : trimOws raw = trim isOws raw := rfl
  unfold collectMember
  rw [trims]
  dsimp only
  rw [refused_token]
  cases token : isToken (trim isOws raw) with
  | false => rfl
  | true =>
    have text : Utf8.fromUtf8 (lowered (trim isOws raw)) = some (lowered (trim isOws raw)) :=
      if_pos (Utf8.valid_of_ascii (lowered_ascii token))
    unfold lowered at text ⊢
    simp [text,recorded]

open HopByHopTokenTrie in
theorem trie_field (state : TokenTrie × List (List UInt8)) (field : HeaderField) (index : Nat) :
    collectField state (field,index) =
      if broken field then .error (invalidConnectionToken index) else .ok ((nominations field).foldl recorded state) := by
  unfold collectField broken nominations
  cases same : field.name == connectionName with
  | false =>
    have differ : (field.name != connectionName) = true := by simpa using same
    simp [differ]
  | true =>
    have equal : (field.name != connectionName) = false := by simpa using same
    simp only [equal,Bool.false_eq_true,if_false,Bool.true_and,if_true]
    rw [members_loop (trie_member index)]
    unfold members
    cases ((field.value.splitOn 0x2c).map (trim isOws)).all isToken <;> rfl

theorem recorded_names (names : List (List UInt8)) (state : HopByHopTokenTrie.TokenTrie × List (List UInt8))
    (represents : Represents state.1 state.2) :
    Represents (names.foldl recorded state).1 (names.foldl recorded state).2 ∧
      ∀ name, name ∈ (names.foldl recorded state).2 ↔ name ∈ state.2 ∨ name ∈ names := by
  induction names generalizing state with
  | nil => exact ⟨represents,by simp⟩
  | cons first names ih =>
    obtain ⟨fresh,inserted⟩ := trie_insert represents first
    have added : ∀ name, name ∈ (recorded state first).2 ↔ name = first ∨ name ∈ state.2 := by
      intro name
      unfold recorded
      by_cases known : first ∈ state.2
      · have old : (HopByHopTokenTrie.TokenTrie.insert state.1 first).2 = false := by
          rw [Bool.eq_false_iff,Ne,fresh,not_not]
          exact known
        simp only [old,Bool.false_eq_true,if_false]
        constructor
        · exact .inr
        · rintro (rfl | member)
          · exact known
          · exact member
      · simp only [fresh.mpr known,if_true,List.mem_append,List.mem_singleton]
        exact or_comm
    obtain ⟨final,found⟩ := ih (recorded state first) (inserted _ added)
    rw [List.foldl_cons]
    refine ⟨final,fun name => ?_⟩
    rw [found,added,List.mem_cons]
    tauto

theorem represents_new : Represents HopByHopTokenTrie.TokenTrie.new [] := by
  refine ⟨Trie.edge_valid _ _ rfl,fun name => ?_⟩
  constructor
  · rintro ⟨node,-,marked⟩
    rcases node with _ | node
    · cases marked
    · cases marked
  · intro member
    cases member

theorem trie_sorts (nominated : HopByHopTokenTrie.TokenTrie) (fields : List HeaderField)
    (state : List HeaderField × List (List UInt8)) :
    fields.foldl (HopByHopTokenTrie.sortField nominated) state =
      (state.1 ++ fields.filter (fun field => !fixedNames.contains field.name &&
          !HopByHopTokenTrie.TokenTrie.contains nominated field.name),
        state.2 ++ (fields.filter fun field => fixedNames.contains field.name).map (·.name)) := by
  induction fields generalizing state with
  | nil => simp
  | cons field fields ih =>
    have fixed : HopByHopTokenTrie.isFixed field.name = fixedNames.contains field.name := rfl
    rw [List.foldl_cons,ih]
    unfold HopByHopTokenTrie.sortField
    rw [fixed]
    cases listed : fixedNames.contains field.name with
    | true =>
      simp only [List.filter_cons,listed,Bool.not_true,Bool.false_and,Bool.false_eq_true,if_false,if_true,List.map_cons,
        List.append_assoc,List.singleton_append]
    | false =>
      cases held : HopByHopTokenTrie.TokenTrie.contains nominated field.name with
      | true =>
        simp only [List.filter_cons,listed,held,Bool.not_true,Bool.and_false,Bool.false_eq_true,if_false]
      | false =>
        simp only [List.filter_cons,listed,held,Bool.not_false,Bool.and_self,Bool.false_eq_true,if_false,if_true,
          List.append_assoc,List.singleton_append]

theorem mem_contributed (fields : List HeaderField) (name : List UInt8) :
    name ∈ fields.flatMap contributed ↔
      (fixedNames.contains name ∧ ∃ field ∈ fields, field.name = name) ∨ name ∈ fields.flatMap nominations := by
  simp only [List.mem_flatMap,contributed,List.mem_append]
  constructor
  · rintro ⟨field,member,inside | inside⟩
    · split at inside
      · rename_i fixed
        obtain rfl := List.mem_singleton.mp inside
        exact .inl ⟨fixed,field,member,rfl⟩
      · cases inside
    · exact .inr ⟨field,member,inside⟩
  · rintro (⟨fixed,field,member,rfl⟩ | ⟨field,member,inside⟩)
    · exact ⟨field,member,.inl (by rw [fixed]; simp)⟩
    · exact ⟨field,member,.inr inside⟩

theorem mem_removed (fields : List HeaderField) (name : List UInt8) :
    name ∈ removed fields ↔
      (fixedNames.contains name ∧ ∃ field ∈ fields, field.name = name) ∨ name ∈ fields.flatMap nominations := by
  unfold removed
  rw [Ordered.mem_ordered,mem_contributed]

theorem removed_field {fields : List HeaderField} {field : HeaderField} (member : field ∈ fields) :
    (!(removed fields).contains field.name) =
      (!fixedNames.contains field.name && !(fields.flatMap nominations).contains field.name) := by
  rw [← Bool.not_or]
  congr 1
  rw [Bool.eq_iff_iff]
  simp only [Bool.or_eq_true,List.contains_iff_mem,mem_removed]
  constructor
  · rintro (⟨fixed,-⟩ | nominated)
    · exact .inl fixed
    · exact .inr nominated
  · rintro (fixed | nominated)
    · exact .inl ⟨fixed,field,member,rfl⟩
    · exact .inr nominated

theorem trie_reference (headers : HeaderBlock) : HopByHopTokenTrie.removeHopByHopHeaders headers = reference headers := by
  obtain ⟨represents,found⟩ := recorded_names (headers.fields.flatMap nominations) (HopByHopTokenTrie.TokenTrie.new,[])
    represents_new
  have collected : HopByHopTokenTrie.collectNominations headers =
      unlessBroken 0 headers.fields ((headers.fields.flatMap nominations).foldl recorded (HopByHopTokenTrie.TokenTrie.new,[])) :=
    fields_loop trie_field headers.fields 0 _
  unfold HopByHopTokenTrie.removeHopByHopHeaders reference
  rw [collected]
  apply unlessBroken_bind
  generalize (headers.fields.flatMap nominations).foldl recorded (HopByHopTokenTrie.TokenTrie.new,[]) = state
    at represents found ⊢
  obtain ⟨trie,names⟩ := state
  dsimp only at represents found ⊢
  rw [trie_sorts]
  have survivors : (headers.fields.filter fun field => !fixedNames.contains field.name &&
      !HopByHopTokenTrie.TokenTrie.contains trie field.name) =
        headers.fields.filter fun field => !(removed headers.fields).contains field.name := by
    apply List.filter_congr
    intro field member
    rw [removed_field member,trie_contains represents]
    congr 2
    rw [Bool.eq_iff_iff,List.contains_iff_mem,found]
    simp
  have all : Ordered.dedup (Ordered.sort (names ++ (headers.fields.filter fun field =>
      fixedNames.contains field.name).map (·.name))) = removed headers.fields := by
    rw [Ordered.sort_dedup]
    apply Ordered.ordered_congr
    intro name
    rw [mem_contributed,List.mem_append,found]
    simp only [List.not_mem_nil,false_or,List.mem_map,List.mem_filter]
    constructor
    · rintro (nominated | ⟨field,⟨member,fixed⟩,rfl⟩)
      · exact .inr nominated
      · exact .inl ⟨fixed,field,member,rfl⟩
    · rintro (⟨fixed,field,member,rfl⟩ | nominated)
      · exact .inr ⟨field,⟨member,fixed⟩,rfl⟩
      · exact .inl nominated
  rw [List.nil_append,survivors,all]

theorem refines_reference (remove : HeaderBlock → Result SanitizedHeaders) (registered : remove ∈ hopByHopImplementations)
    (headers : HeaderBlock) : remove headers = reference headers := by
  simp only [hopByHopImplementations,List.mem_cons,List.not_mem_nil,or_false] at registered
  rcases registered with rfl | rfl | rfl | rfl | rfl
  · exact table_reference headers
  · exact composable_reference headers
  · exact pipeline_reference headers
  · exact plan_reference headers
  · exact trie_reference headers

/-- A member of a connection field names a field to remove. -/
def Nominated (fields : List HeaderField) (name : List UInt8) : Prop :=
  ∃ field ∈ fields, field.name = connectionName ∧ ∃ raw ∈ field.value.splitOn 0x2c, name = lowered (trim isOws raw)

/-- A connection field with a comma member that is empty or no token once its blanks are trimmed. -/
def Faulty (field : HeaderField) : Prop :=
  field.name = connectionName ∧ ∃ raw ∈ field.value.splitOn 0x2c, trim isOws raw = [] ∨ ∃ b ∈ trim isOws raw, ¬ isTchar b

theorem broken_iff (field : HeaderField) : broken field ↔ Faulty field := by
  have token (member : List UInt8) : isToken member = false ↔ member = [] ∨ ∃ b ∈ member, ¬ isTchar b := by
    unfold isToken
    rw [Bool.and_eq_false_iff,Bool.not_eq_false',List.isEmpty_iff,List.all_eq_false]
  unfold broken Faulty members
  rw [Bool.and_eq_true,beq_iff_eq,Bool.not_eq_true',List.all_eq_false]
  simp only [List.mem_map,exists_exists_and_eq_and,Bool.not_eq_true,token]

theorem nominated_iff (fields : List HeaderField) (name : List UInt8) :
    name ∈ fields.flatMap nominations ↔ Nominated fields name := by
  unfold nominations Nominated members
  simp only [List.mem_flatMap]
  constructor
  · rintro ⟨field,member,inside⟩
    split at inside
    · rename_i same
      simp only [List.map_map,List.mem_map,Function.comp] at inside
      obtain ⟨raw,among,rfl⟩ := inside
      exact ⟨field,member,beq_iff_eq.mp same,raw,among,rfl⟩
    · cases inside
  · rintro ⟨field,member,same,raw,among,rfl⟩
    refine ⟨field,member,?_⟩
    rw [if_pos (beq_iff_eq.mpr same)]
    exact List.mem_map_of_mem (List.mem_map_of_mem among)

instance (fields : List HeaderField) (name : List UInt8) : Decidable (Nominated fields name) :=
  decidable_of_iff _ (nominated_iff fields name)

theorem reference_error (headers : HeaderBlock) (error : PolyguardError) :
    reference headers = .error error ↔ ∃ before field after, headers.fields = before ++ field :: after ∧
      (∀ earlier ∈ before, ¬ Faulty earlier) ∧ Faulty field ∧ error = invalidConnectionToken before.length := by
  unfold reference unlessBroken
  rcases first_hit broken headers.fields with miss | ⟨before,field,after,shape,miss,found⟩
  · rw [position_none miss]
    simp only [Option.elim_none,reduceCtorEq,false_iff]
    rintro ⟨before,field,after,shape,-,faulty,-⟩
    have clean := miss field (by simp [shape])
    rw [(broken_iff field).mpr faulty] at clean
    cases clean
  · rw [shape,position_append after miss found]
    simp only [Option.elim_some,Except.error.injEq,Nat.zero_add]
    constructor
    · rintro rfl
      refine ⟨before,field,after,rfl,?_,(broken_iff field).mp found,rfl⟩
      intro earlier member faulty
      have clean := miss earlier member
      rw [(broken_iff earlier).mpr faulty] at clean
      cases clean
    · rintro ⟨before',field',after',same,clean,faulty,rfl⟩
      have miss' : ∀ earlier ∈ before', broken earlier = false := by
        intro earlier member
        rw [Bool.eq_false_iff,Ne,broken_iff]
        exact clean earlier member
      have left := position_append after miss found
      have right := position_append after' miss' ((broken_iff field').mpr faulty)
      rw [← same,left] at right
      rw [Option.some.inj right]

theorem reference_ok (headers : HeaderBlock) (sanitized : SanitizedHeaders) :
    reference headers = .ok sanitized ↔ (∀ field ∈ headers.fields, ¬ Faulty field) ∧
      sanitized = ⟨headers.fields.filter fun field => !(removed headers.fields).contains field.name,removed headers.fields⟩ := by
  unfold reference unlessBroken
  rcases first_hit broken headers.fields with miss | ⟨before,field,after,shape,miss,found⟩
  · have clean : ∀ field ∈ headers.fields, ¬ Faulty field := by
      intro field member faulty
      have refused := miss field member
      rw [(broken_iff field).mpr faulty] at refused
      cases refused
    rw [position_none miss]
    simp only [Option.elim_none,Except.ok.injEq]
    constructor
    · rintro rfl
      exact ⟨clean,rfl⟩
    · rintro ⟨-,rfl⟩
      rfl
  · rw [shape,position_append after miss found]
    simp only [Option.elim_some,reduceCtorEq,false_iff]
    rintro ⟨clean,-⟩
    exact clean field (by simp) ((broken_iff field).mp found)

theorem survivors_clean {fields : List HeaderField} {field : HeaderField}
    (survives : field ∈ fields.filter fun field => !(removed fields).contains field.name) :
    broken field = false ∧ contributed field = [] := by
  obtain ⟨member,kept⟩ := List.mem_filter.mp survives
  rw [removed_field member,Bool.and_eq_true,Bool.not_eq_true'] at kept
  have other : (field.name == connectionName) = false := by
    rw [beq_eq_false_iff_ne]
    intro same
    rw [same,connection_fixed] at kept
    exact absurd kept.1 (by decide)
  constructor
  · simp [broken,other]
  · rw [contributed,nominations,kept.1,other]
    rfl

theorem survivors_eq (fields : List HeaderField) :
    (fields.filter fun field => !(removed fields).contains field.name) =
      fields.filter fun field => decide (field.name ∉ fixedNames ∧ ¬ Nominated fields field.name) := by
  apply List.filter_congr
  intro field member
  rw [removed_field member,Bool.eq_iff_iff,decide_eq_true_eq,← nominated_iff]
  simp

theorem reference_again {headers : HeaderBlock} {sanitized : SanitizedHeaders} (accepted : reference headers = .ok sanitized)
    (consumed : Nat) : reference ⟨sanitized.fields,consumed⟩ = .ok ⟨sanitized.fields,[]⟩ := by
  obtain ⟨-,rfl⟩ := (reference_ok headers sanitized).mp accepted
  generalize survivors : (headers.fields.filter fun field => !(removed headers.fields).contains field.name) = fields
  have clean : ∀ field ∈ fields, broken field = false ∧ contributed field = [] := by
    rw [← survivors]
    exact fun field member => survivors_clean member
  have nothing : removed fields = [] := by
    have empty : fields.flatMap contributed = [] :=
      List.flatMap_eq_nil_iff.mpr fun field member => (clean field member).2
    unfold removed
    rw [empty]
    rfl
  unfold reference unlessBroken
  rw [position_none fun field member => (clean field member).1]
  simp [nothing]

/-- Every implementation removes the fixed and the nominated names, reports the first faulty connection field, and
finds nothing to remove among the survivors. -/
theorem hop_by_hop_agreement (headers : HeaderBlock) :
    Agree hopByHopImplementations headers ∧ ∀ remove ∈ hopByHopImplementations,
      (∀ error, remove headers = .error error ↔ ∃ before field after, headers.fields = before ++ field :: after ∧
        (∀ earlier ∈ before, ¬ Faulty earlier) ∧ Faulty field ∧
        error = .invalidHeader before.length "invalid_connection_token") ∧
      (∀ sanitized, remove headers = .ok sanitized ↔ (∀ field ∈ headers.fields, ¬ Faulty field) ∧
        sanitized.fields = headers.fields.filter
          (fun field => decide (field.name ∉ fixedNames ∧ ¬ Nominated headers.fields field.name)) ∧
        sanitized.removedNames.Pairwise (· < ·) ∧
        ∀ name, name ∈ sanitized.removedNames ↔
          (name ∈ fixedNames ∧ ∃ field ∈ headers.fields, field.name = name) ∨ Nominated headers.fields name) ∧
      (∀ sanitized consumed, remove headers = .ok sanitized →
        remove ⟨sanitized.fields,consumed⟩ = .ok ⟨sanitized.fields,[]⟩) := by
  have names (name : List UInt8) : name ∈ removed headers.fields ↔
      (name ∈ fixedNames ∧ ∃ field ∈ headers.fields, field.name = name) ∨ Nominated headers.fields name := by
    rw [mem_removed,nominated_iff,List.contains_iff_mem]
  refine ⟨agree_of_reference (reference headers) fun remove registered => refines_reference remove registered headers,
    fun remove registered => ⟨fun error => ?_,fun sanitized => ?_,fun sanitized consumed accepted => ?_⟩⟩
  · rw [refines_reference remove registered]
    exact reference_error headers error
  · rw [refines_reference remove registered,reference_ok,← survivors_eq]
    constructor
    · rintro ⟨clean,rfl⟩
      exact ⟨clean,rfl,Ordered.strict_ordered _,names⟩
    · rintro ⟨clean,fields,strict,members⟩
      refine ⟨clean,?_⟩
      have same : sanitized.removedNames = removed headers.fields := by
        apply Ordered.strict_ext strict (Ordered.strict_ordered _)
        intro name
        rw [members,← names]
        rfl
      rw [← fields,← same]
  · rw [refines_reference remove registered] at accepted ⊢
    exact reference_again accepted consumed

end Polyguard.HopByHopAgreement
