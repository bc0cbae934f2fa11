import Polyguard.Proxy.Faults
import Mathlib.Data.List.Nodup

/-! The agreement of independent implementations of one protocol function.
A call asks the eligible implementations one after the other, the assigned primary
first, until enough of them gave the same answer. An implementation is a record of
optional operations; the name of a protocol function selects one of them. -/
namespace Polyguard.Proxy

structure Implementation (Operation : Type) where
  id : String
  operation : String → Option Operation

structure Agreement where
  width : Nat
  quarantined : List String
  primary : String → Option String

namespace Agreement

variable {Operation T : Type} [DecidableEq T]

def updatePrimary (agreement : Agreement) (primary : String → Option String) : Agreement := { agreement with primary }

/-- The primary entry, whatever its state, and then the others in registry order. -/
def candidates (agreement : Agreement) (registry : List (Implementation Operation)) (function : String) :
    List (Implementation Operation) :=
  let primaryId := agreement.primary function
  (primaryId.bind fun id => registry.find? fun entry => entry.id == id).toList ++
    registry.filter fun entry => some entry.id != primaryId

/-- What follows the loop: the calls made must be as many as the width. -/
def settle (width called : Nat) (reference : Option (Result T)) : Outcome T :=
  if called ≠ width then .error .internal
  else match reference with
    | some (.ok value) => .ok value
    | some (.error error) => .error (.protocol error)
    | none => .error .internal

/-- The loop over the candidates with the answer it expects and the entries it has called. -/
def callLoop (agreement : Agreement) (function : String) (invoke : Implementation Operation → Option (Result T)) :
    List (Implementation Operation) → Option (Result T) → List (Implementation Operation) →
      List (Implementation Operation) × Outcome T
  | [],reference,called => (called,settle agreement.width called.length reference)
  | entry :: candidates,reference,called =>
    if agreement.quarantined.contains entry.id then agreement.callLoop function invoke candidates reference called
    else match invoke entry with
      | none => agreement.callLoop function invoke candidates reference called
      | some outcome =>
        let called := called ++ [entry]
        match reference with
        | some expected =>
          if expected ≠ outcome then (called,.error (.disagreement function))
          else if called.length = agreement.width then (called,settle agreement.width called.length reference)
          else agreement.callLoop function invoke candidates reference called
        | none =>
          if called.length = agreement.width then (called,settle agreement.width called.length (some outcome))
          else agreement.callLoop function invoke candidates (some outcome) called

/-- The entries called, in order, and the answer. -/
def run (agreement : Agreement) (registry : List (Implementation Operation)) (function : String)
    (apply : Operation → Result T) : List (Implementation Operation) × Outcome T :=
  agreement.callLoop function (fun entry => (entry.operation function).map apply)
    (agreement.candidates registry function) none []

def selectedIds (agreement : Agreement) (registry : List (Implementation Operation)) (function : String) : List String :=
  let primaryId := agreement.primary function
  let ids := ((primaryId.bind fun id => registry.find? fun entry =>
    entry.id == id && (entry.operation function).isSome && !agreement.quarantined.contains entry.id).map (·.id)).toList
  ids ++ ((registry.filter fun entry => !agreement.quarantined.contains entry.id && (entry.operation function).isSome &&
    some entry.id != primaryId).take (agreement.width - ids.length)).map (·.id)

/-- An entry that is not quarantined and implements the function. -/
def isEligible (agreement : Agreement) (function : String) (entry : Implementation Operation) : Bool :=
  !agreement.quarantined.contains entry.id && (entry.operation function).isSome

/-- The eligible primary and then the other eligible entries in registry order. -/
def eligible (agreement : Agreement) (registry : List (Implementation Operation)) (function : String) :
    List (Implementation Operation) :=
  (registry.filter fun entry => agreement.isEligible function entry && some entry.id == agreement.primary function) ++
    registry.filter fun entry => agreement.isEligible function entry && some entry.id != agreement.primary function

omit [DecidableEq T] in
theorem find_unique {registry : List (Implementation Operation)} (unique : (registry.map (·.id)).Nodup) (id : String)
    (p : Implementation Operation → Bool) :
    (registry.find? fun entry => entry.id == id && p entry).toList = registry.filter fun entry => p entry && entry.id == id := by
  induction registry with
  | nil => rfl
  | cons entry registry ih =>
    rw [List.map_cons,List.nodup_cons] at unique
    by_cases here : entry.id = id
    · have rest : registry.filter (fun other => p other && other.id == id) = [] := by
        rw [List.filter_eq_nil_iff]
        intro other member same
        have other_id : other.id = id := by simpa using And.right (by simpa using same)
        exact unique.1 (List.mem_map.mpr ⟨other,member,by rw [other_id,here]⟩)
      cases passes : p entry with
      | true => simp [here,passes,rest]
      | false => simpa [List.find?_cons,here,passes] using ih unique.2
    · simpa [List.find?_cons,here] using ih unique.2

theorem candidates_eligible (agreement : Agreement) {registry : List (Implementation Operation)}
    (unique : (registry.map (·.id)).Nodup) (function : String) :
    (agreement.candidates registry function).filter (agreement.isEligible function) =
      agreement.eligible registry function := by
  unfold candidates eligible
  rw [List.filter_append,List.filter_filter]
  congr 1
  cases agreement.primary function with
  | none => simp
  | some id =>
    have primary := find_unique unique id fun _ => true
    simp only [Bool.and_true,Bool.true_and] at primary
    simp only [Option.bind_some,primary,List.filter_filter,Option.some_beq_some]

theorem selectedIds_eligible (agreement : Agreement) {registry : List (Implementation Operation)}
    (unique : (registry.map (·.id)).Nodup) (positive : 1 ≤ agreement.width) (function : String) :
    agreement.selectedIds registry function =
      ((agreement.eligible registry function).take agreement.width).map (·.id) := by
  have guards (entry : Implementation Operation) : (!agreement.quarantined.contains entry.id &&
      (entry.operation function).isSome && some entry.id != agreement.primary function) =
      (agreement.isEligible function entry && some entry.id != agreement.primary function) := rfl
  unfold selectedIds eligible
  simp only [guards]
  cases assigned : agreement.primary function with
  | none => simp
  | some id =>
    have swapped : (fun entry : Implementation Operation => entry.id == id && (entry.operation function).isSome &&
        !agreement.quarantined.contains entry.id) = fun entry => entry.id == id && agreement.isEligible function entry := by
      funext entry
      unfold isEligible
      cases entry.id == id <;> cases (entry.operation function).isSome <;>
        cases agreement.quarantined.contains entry.id <;> rfl
    have primary := find_unique unique id (agreement.isEligible function)
    have small : (registry.filter fun entry => agreement.isEligible function entry && entry.id == id).length ≤ 1 := by
      rw [← primary]
      cases registry.find? fun entry => entry.id == id && agreement.isEligible function entry <;> simp
    have ids : ((registry.find? fun entry => entry.id == id && agreement.isEligible function entry).map (·.id)).toList =
        (registry.filter fun entry => agreement.isEligible function entry && entry.id == id).map (·.id) := by
      rw [← primary]
      cases registry.find? fun entry => entry.id == id && agreement.isEligible function entry <;> rfl
    simp only [Option.bind_some,swapped,ids,Option.some_beq_some,List.length_map]
    rw [List.take_append,List.map_append,List.take_of_length_le (Nat.le_trans small positive)]

theorem callLoop_skip (agreement : Agreement) (function : String) {invoke : Implementation Operation → Option (Result T)}
    (implemented : ∀ entry, (invoke entry).isSome = (entry.operation function).isSome)
    {entry : Implementation Operation} (unable : ¬ agreement.isEligible function entry)
    (candidates : List (Implementation Operation)) (reference : Option (Result T)) (called : List (Implementation Operation)) :
    agreement.callLoop function invoke (entry :: candidates) reference called =
      agreement.callLoop function invoke candidates reference called := by
  by_cases out : agreement.quarantined.contains entry.id = true
  · rw [callLoop,if_pos out]
  · have absent : invoke entry = none := by
      have missing : (entry.operation function).isSome = false := by
        simpa only [isEligible,Bool.not_eq_true,Bool.and_eq_false_iff,Bool.not_eq_eq_eq_not,Bool.not_false,out,
          Bool.true_eq_false,false_or] using unable
      rw [← implemented entry] at missing
      simpa using missing
    rw [callLoop,if_neg out,absent]

theorem callLoop_call (agreement : Agreement) (function : String) {invoke : Implementation Operation → Option (Result T)}
    {entry : Implementation Operation} (able : agreement.isEligible function entry) {answer : Result T}
    (answered : invoke entry = some answer) (candidates : List (Implementation Operation)) {reference : Option (Result T)}
    (expected : reference = some answer ∨ reference = none) (called : List (Implementation Operation)) :
    agreement.callLoop function invoke (entry :: candidates) reference called =
      if (called ++ [entry]).length = agreement.width then
        (called ++ [entry],settle agreement.width (called ++ [entry]).length (some answer))
      else agreement.callLoop function invoke candidates (some answer) (called ++ [entry]) := by
  have free : agreement.quarantined.contains entry.id = false := by
    simp only [isEligible,Bool.and_eq_true,Bool.not_eq_true'] at able
    exact able.1
  rw [callLoop,free,answered]
  simp only [Bool.false_eq_true,if_false]
  rcases expected with rfl | rfl
  · simp only [ne_eq,not_true_eq_false,if_false]
  · rfl

/-- The calls of a loop whose remaining answers are all the expected one. -/
theorem callLoop_agreed (agreement : Agreement) (function : String)
    {invoke : Implementation Operation → Option (Result T)} (answer : Result T)
    (implemented : ∀ entry, (invoke entry).isSome = (entry.operation function).isSome) :
    ∀ (candidates called : List (Implementation Operation)) (reference : Option (Result T)),
      (reference = some answer ∨ reference = none) → called.length < agreement.width →
      (∀ entry ∈ (candidates.filter (agreement.isEligible function)).take (agreement.width - called.length),
        invoke entry = some answer) →
      agreement.callLoop function invoke candidates reference called =
        (called ++ (candidates.filter (agreement.isEligible function)).take (agreement.width - called.length),
          settle agreement.width
            (called ++ (candidates.filter (agreement.isEligible function)).take (agreement.width - called.length)).length
            (some answer)) := by
  intro candidates
  induction candidates with
  | nil =>
    intro called reference expected room _
    have short : called.length ≠ agreement.width := Nat.ne_of_lt room
    simp [callLoop,settle,short]
  | cons entry candidates ih =>
    intro called reference expected room agreed
    by_cases able : agreement.isEligible function entry
    · obtain ⟨left,wide⟩ : ∃ left, agreement.width - called.length = left + 1 := ⟨agreement.width - called.length - 1,by omega⟩
      rw [List.filter_cons_of_pos able,wide,List.take_succ_cons] at agreed ⊢
      have longer : (called ++ [entry]).length = called.length + 1 := by simp
      have split : called ++ entry :: (candidates.filter (agreement.isEligible function)).take left =
          (called ++ [entry]) ++ (candidates.filter (agreement.isEligible function)).take left := by simp
      rw [callLoop_call agreement function able (agreed entry List.mem_cons_self) candidates expected,split]
      by_cases full : (called ++ [entry]).length = agreement.width
      · have done : left = 0 := by omega
        rw [if_pos full,done]
        simp
      · have further := ih (called ++ [entry]) (some answer) (.inl rfl) (by omega)
        rw [show agreement.width - (called ++ [entry]).length = left by omega] at further
        rw [if_neg full,further fun other member => agreed other (List.mem_cons_of_mem entry member)]
    · rw [List.filter_cons_of_neg able] at agreed ⊢
      rw [callLoop_skip agreement function implemented able,ih called reference expected room agreed]

theorem callLoop_differs (agreement : Agreement) (function : String)
    {invoke : Implementation Operation → Option (Result T)} (answer : Result T)
    (implemented : ∀ entry, (invoke entry).isSome = (entry.operation function).isSome) :
    ∀ (candidates called : List (Implementation Operation)), called.length < agreement.width →
      (∃ entry ∈ (candidates.filter (agreement.isEligible function)).take (agreement.width - called.length),
        invoke entry ≠ some answer) →
      (agreement.callLoop function invoke candidates (some answer) called).2 = .error (.disagreement function) := by
  intro candidates
  induction candidates with
  | nil =>
    rintro called room ⟨entry,member,-⟩
    simp at member
  | cons entry candidates ih =>
    rintro called room ⟨other,member,differs⟩
    by_cases able : agreement.isEligible function entry
    · obtain ⟨left,wide⟩ : ∃ left, agreement.width - called.length = left + 1 := ⟨agreement.width - called.length - 1,by omega⟩
      rw [List.filter_cons_of_pos able,wide,List.take_succ_cons] at member
      have free : agreement.quarantined.contains entry.id = false ∧ (entry.operation function).isSome = true := by
        simpa only [isEligible,Bool.and_eq_true,Bool.not_eq_true'] using able
      obtain ⟨given,answered⟩ := Option.isSome_iff_exists.mp ((implemented entry).trans free.2)
      by_cases same : answer = given
      · subst same
        have longer : (called ++ [entry]).length = called.length + 1 := by simp
        have later : other ∈ (candidates.filter (agreement.isEligible function)).take left := by
          rcases List.mem_cons.mp member with rfl | inside
          · exact absurd answered differs
          · exact inside
        have open' : (called ++ [entry]).length ≠ agreement.width := by
          intro full
          rw [show left = 0 by omega] at later
          simp at later
        rw [callLoop_call agreement function able answered candidates (.inl rfl),if_neg open']
        apply ih (called ++ [entry]) (by omega)
        rw [show agreement.width - (called ++ [entry]).length = left by omega]
        exact ⟨other,later,differs⟩
      · rw [callLoop,free.1,answered]
        simp only [Bool.false_eq_true,if_false,ne_eq,same,not_false_eq_true,if_true]
    · rw [List.filter_cons_of_neg able] at member
      rw [callLoop_skip agreement function implemented able]
      exact ih called room ⟨other,member,differs⟩

/-- The loop reaches its first eligible candidate without a call. -/
theorem callLoop_first (agreement : Agreement) (function : String)
    {invoke : Implementation Operation → Option (Result T)}
    (implemented : ∀ entry, (invoke entry).isSome = (entry.operation function).isSome)
    {first : Implementation Operation} {others : List (Implementation Operation)} :
    ∀ candidates : List (Implementation Operation),
      candidates.filter (agreement.isEligible function) = first :: others →
      ∃ rest, rest.filter (agreement.isEligible function) = others ∧
        agreement.callLoop function invoke candidates none [] =
          agreement.callLoop function invoke (first :: rest) none [] := by
  intro candidates
  induction candidates with
  | nil =>
    intro split
    cases split
  | cons entry candidates ih =>
    intro split
    by_cases able : agreement.isEligible function entry
    · rw [List.filter_cons_of_pos able] at split
      obtain ⟨rfl,rfl⟩ := List.cons_eq_cons.mp split
      exact ⟨candidates,rfl,rfl⟩
    · rw [List.filter_cons_of_neg able] at split
      rw [callLoop_skip agreement function implemented able]
      exact ih split

/-- What an entry answers, if it implements the function. -/
def answer (function : String) (apply : Operation → Result T) (entry : Implementation Operation) : Option (Result T) :=
  (entry.operation function).map apply

/-- The first eligible entries, as many as the width asks for. -/
def quorum (agreement : Agreement) (registry : List (Implementation Operation)) (function : String) :
    List (Implementation Operation) :=
  (agreement.eligible registry function).take agreement.width

theorem mem_quorum {agreement : Agreement} {registry : List (Implementation Operation)} {function : String}
    {entry : Implementation Operation} (member : entry ∈ agreement.quorum registry function) :
    entry ∈ registry ∧ entry.id ∉ agreement.quarantined ∧ (entry.operation function).isSome := by
  have inside := List.mem_of_mem_take member
  simp only [eligible,isEligible,List.mem_append,List.mem_filter,Bool.and_eq_true,Bool.not_eq_true',
    List.contains_eq_mem,decide_eq_false_iff_not] at inside
  rcases inside with ⟨registered,⟨free,able⟩,-⟩ | ⟨registered,⟨free,able⟩,-⟩
  · exact ⟨registered,free,able⟩
  · exact ⟨registered,free,able⟩

theorem quorum_nodup (agreement : Agreement) {registry : List (Implementation Operation)}
    (unique : (registry.map (·.id)).Nodup) (function : String) : (agreement.quorum registry function).Nodup := by
  have distinct : registry.Nodup := List.Nodup.of_map _ unique
  apply (List.take_sublist _ _).nodup
  rw [eligible,List.nodup_append]
  refine ⟨distinct.filter _,distinct.filter _,?_⟩
  rintro entry primary other foreign rfl
  simp only [List.mem_filter,Bool.and_eq_true] at primary foreign
  rw [bne,primary.2.2] at foreign
  exact absurd foreign.2.2 (by decide)

theorem run_cases (agreement : Agreement) {registry : List (Implementation Operation)}
    (unique : (registry.map (·.id)).Nodup) (positive : 1 ≤ agreement.width) (function : String)
    (apply : Operation → Result T) :
    (agreement.quorum registry function = [] ∧
      agreement.run registry function apply = ([],.error .internal)) ∨
    (∃ given, agreement.quorum registry function ≠ [] ∧
      (∀ entry ∈ agreement.quorum registry function, answer function apply entry = some given) ∧
      agreement.run registry function apply = (agreement.quorum registry function,
        settle agreement.width (agreement.quorum registry function).length (some given))) ∨
    ((∃ left ∈ agreement.quorum registry function, ∃ right ∈ agreement.quorum registry function,
        answer function apply left ≠ answer function apply right) ∧
      (agreement.run registry function apply).2 = .error (.disagreement function)) := by
  have implemented : ∀ entry : Implementation Operation,
      (answer function apply entry).isSome = (entry.operation function).isSome := fun entry => by simp [answer]
  have ordered := candidates_eligible agreement unique function
  unfold quorum run
  cases listed : agreement.eligible registry function with
  | nil =>
    rw [listed] at ordered
    refine .inl ⟨by simp,?_⟩
    have ended : ∀ candidates : List (Implementation Operation),
        candidates.filter (agreement.isEligible function) = [] →
        agreement.callLoop function (answer function apply) candidates none [] = ([],.error .internal) := by
      intro candidates
      induction candidates with
      | nil =>
        intro _
        simp [callLoop,settle,Nat.ne_of_lt positive]
      | cons entry candidates ih =>
        intro empty
        have unable : ¬ agreement.isEligible function entry := by
          intro able
          rw [List.filter_cons_of_pos able] at empty
          cases empty
        rw [List.filter_cons_of_neg unable] at empty
        rw [callLoop_skip agreement function implemented unable,ih empty]
    exact ended _ ordered
  | cons first others =>
    rw [listed] at ordered
    have able : agreement.isEligible function first := by
      have member : first ∈ (agreement.candidates registry function).filter (agreement.isEligible function) := by
        rw [ordered]
        exact List.mem_cons_self
      exact (List.mem_filter.mp member).2
    obtain ⟨given,answered⟩ := Option.isSome_iff_exists.mp ((implemented first).trans (by
      simp only [isEligible,Bool.and_eq_true] at able
      exact able.2))
    obtain ⟨left,wide⟩ : ∃ left, agreement.width = left + 1 := ⟨agreement.width - 1,by omega⟩
    by_cases agreed : ∀ entry ∈ (first :: others).take agreement.width, answer function apply entry = some given
    · have looped := callLoop_agreed agreement function given implemented (agreement.candidates registry function) [] none
        (.inr rfl) positive (by simpa only [ordered,List.length_nil,Nat.sub_zero] using agreed)
      rw [ordered,List.length_nil,Nat.sub_zero,List.nil_append] at looped
      exact .inr (.inl ⟨given,by simp [wide],agreed,looped⟩)
    · obtain ⟨other,member,differs⟩ : ∃ other ∈ (first :: others).take agreement.width,
          answer function apply other ≠ some given := by
        simpa using agreed
      refine .inr (.inr ⟨⟨first,by simp [wide],other,member,by rw [answered]; exact Ne.symm differs⟩,?_⟩)
      obtain ⟨rest,remaining,reached⟩ := callLoop_first agreement function implemented _ ordered
      change (agreement.callLoop function (answer function apply) _ none []).2 = _
      rw [wide,List.take_succ_cons] at member
      have later : other ∈ others.take left := by
        rcases List.mem_cons.mp member with rfl | inside
        · exact absurd answered differs
        · exact inside
      have open' : ([] ++ [first]).length ≠ agreement.width := by
        intro full
        rw [List.nil_append,List.length_singleton] at full
        rw [show left = 0 by omega] at later
        simp at later
      rw [reached,callLoop_call agreement function able answered rest (.inr rfl),if_neg open']
      apply callLoop_differs agreement function given implemented rest
      · rw [List.nil_append,List.length_singleton]
        rw [List.nil_append,List.length_singleton] at open'
        omega
      · rw [remaining,List.nil_append,List.length_singleton,show agreement.width - 1 = left by omega]
        exact ⟨other,later,differs⟩

theorem eligible_length (agreement : Agreement) (registry : List (Implementation Operation)) (function : String) :
    (agreement.eligible registry function).length = (registry.filter (agreement.isEligible function)).length := by
  unfold eligible
  rw [List.length_append]
  induction registry with
  | nil => rfl
  | cons entry registry ih =>
    rw [List.filter_cons,List.filter_cons,List.filter_cons,bne]
    cases agreement.isEligible function entry <;> cases some entry.id == agreement.primary function <;>
      simp only [Bool.and_true,Bool.and_false,Bool.not_true,Bool.not_false,Bool.false_eq_true,if_true,if_false,
        List.length_cons] <;> omega

theorem selectedIds_length (agreement : Agreement) {registry : List (Implementation Operation)}
    (unique : (registry.map (·.id)).Nodup) (positive : 1 ≤ agreement.width) (function : String) :
    (agreement.selectedIds registry function).length =
      min agreement.width (registry.filter (agreement.isEligible function)).length := by
  rw [selectedIds_eligible agreement unique positive,List.length_map,List.length_take,eligible_length]

theorem updates_frame (agreement : Agreement) (updates : List (String → Option String)) :
    (updates.foldl updatePrimary agreement).width = agreement.width ∧
      (updates.foldl updatePrimary agreement).quarantined = agreement.quarantined := by
  induction updates generalizing agreement with
  | nil => exact ⟨rfl,rfl⟩
  | cons update updates ih => exact ih (agreement.updatePrimary update)

theorem updates_length (agreement : Agreement) {registry : List (Implementation Operation)}
    (unique : (registry.map (·.id)).Nodup) (positive : 1 ≤ agreement.width) (function : String)
    (updates : List (String → Option String)) :
    ((updates.foldl updatePrimary agreement).selectedIds registry function).length =
      (agreement.selectedIds registry function).length := by
  obtain ⟨width,quarantined⟩ := updates_frame agreement updates
  have same : ((updates.foldl updatePrimary agreement).isEligible function : Implementation Operation → Bool) =
      agreement.isEligible function := by
    funext entry
    rw [isEligible,isEligible,quarantined]
  rw [selectedIds_length agreement unique positive,selectedIds_length _ unique (by omega),width,same]

omit [DecidableEq T] in
theorem settle_ok {width called : Nat} {given : Result T} {value : T} (ok : settle width called (some given) = .ok value) :
    called = width ∧ given = .ok value := by
  unfold settle at ok
  split at ok
  · cases ok
  · rename_i full
    cases given with
    | ok found =>
      cases ok
      exact ⟨by simpa using full,rfl⟩
    | error error => cases ok

omit [DecidableEq T] in
theorem settle_protocol {width called : Nat} {given : Result T} {error : PolyguardError}
    (failed : settle width called (some given) = .error (.protocol error)) : called = width ∧ given = .error error := by
  unfold settle at failed
  split at failed
  · cases failed
  · rename_i full
    cases given with
    | ok found => cases failed
    | error found =>
      cases failed
      exact ⟨by simpa using full,rfl⟩

/-- A run answers only for a full quorum of one opinion, reports every other outcome as the fault it is, asks the
entries that the selection lists, and no assignment of primaries changes how many are selected. -/
theorem run_fail_closed (registry : List (Implementation Operation)) (unique : (registry.map (·.id)).Nodup)
    (agreement : Agreement) (positive : 1 ≤ agreement.width) (function : String) (apply : Operation → Result T) :
    (∀ value, (agreement.run registry function apply).2 = .ok value →
      (agreement.run registry function apply).1 = agreement.quorum registry function ∧
      (agreement.run registry function apply).1.length = agreement.width ∧
      (agreement.run registry function apply).1.Nodup ∧
      ∀ entry ∈ (agreement.run registry function apply).1, entry ∈ registry ∧ entry.id ∉ agreement.quarantined ∧
        answer function apply entry = some (.ok value)) ∧
    (∀ error, (agreement.run registry function apply).2 = .error (.protocol error) →
      (agreement.run registry function apply).1 = agreement.quorum registry function ∧
      (agreement.run registry function apply).1.length = agreement.width ∧
      (agreement.run registry function apply).1.Nodup ∧
      ∀ entry ∈ (agreement.run registry function apply).1, entry ∈ registry ∧ entry.id ∉ agreement.quarantined ∧
        answer function apply entry = some (.error error)) ∧
    ((∃ left ∈ agreement.quorum registry function, ∃ right ∈ agreement.quorum registry function,
        answer function apply left ≠ answer function apply right) →
      (agreement.run registry function apply).2 = .error (.disagreement function)) ∧
    ((agreement.quorum registry function).length < agreement.width →
      (∀ left ∈ agreement.quorum registry function, ∀ right ∈ agreement.quorum registry function,
        answer function apply left = answer function apply right) →
      (agreement.run registry function apply).2 = .error .internal) ∧
    ((agreement.run registry function apply).2 ≠ .error (.disagreement function) →
      (agreement.quorum registry function).length = agreement.width →
      (agreement.run registry function apply).1.map (·.id) = agreement.selectedIds registry function) ∧
    ∀ updates : List (String → Option String),
      ((updates.foldl updatePrimary agreement).selectedIds registry function).length =
        (agreement.selectedIds registry function).length := by
  have selected := selectedIds_eligible agreement unique positive function
  refine ⟨?_,?_,?_,?_,?_,updates_length agreement unique positive function⟩
  · intro value ok
    rcases run_cases agreement unique positive function apply with ⟨-,ran⟩ | ⟨given,-,same,ran⟩ | ⟨-,ran⟩
    · rw [ran] at ok
      cases ok
    · rw [ran] at ok ⊢
      obtain ⟨full,rfl⟩ := settle_ok ok
      exact ⟨rfl,full,quorum_nodup agreement unique function,fun entry member =>
        ⟨(mem_quorum member).1,(mem_quorum member).2.1,same entry member⟩⟩
    · rw [ran] at ok
      cases ok
  · intro error failed
    rcases run_cases agreement unique positive function apply with ⟨-,ran⟩ | ⟨given,-,same,ran⟩ | ⟨-,ran⟩
    · rw [ran] at failed
      cases failed
    · rw [ran] at failed ⊢
      obtain ⟨full,rfl⟩ := settle_protocol failed
      exact ⟨rfl,full,quorum_nodup agreement unique function,fun entry member =>
        ⟨(mem_quorum member).1,(mem_quorum member).2.1,same entry member⟩⟩
    · rw [ran] at failed
      cases failed
  · rintro ⟨left,leftIn,right,rightIn,differ⟩
    rcases run_cases agreement unique positive function apply with ⟨empty,-⟩ | ⟨given,-,same,-⟩ | ⟨-,ran⟩
    · rw [empty] at leftIn
      cases leftIn
    · exact absurd ((same left leftIn).trans (same right rightIn).symm) differ
    · exact ran
  · intro short agreed
    rcases run_cases agreement unique positive function apply with ⟨-,ran⟩ | ⟨given,-,-,ran⟩ | ⟨⟨left,leftIn,right,rightIn,differ⟩,-⟩
    · rw [ran]
    · rw [ran]
      exact if_pos (Nat.ne_of_lt short)
    · exact absurd (agreed left leftIn right rightIn) differ
  · intro agreed full
    rcases run_cases agreement unique positive function apply with ⟨empty,-⟩ | ⟨given,-,-,ran⟩ | ⟨-,ran⟩
    · rw [empty,List.length_nil] at full
      omega
    · rw [ran,selected]
      rfl
    · exact absurd ran agreed

/-- Three entries, the second of them quarantined and assigned as the primary. -/
theorem run_fail_closed_sample :
    let registry : List (Implementation Bool) := [⟨"one",fun _ => some true⟩,⟨"two",fun _ => some false⟩,⟨"three",fun _ => some true⟩]
    let agreement : Agreement := ⟨2,["two"],fun _ => some "two"⟩
    (agreement.run registry "f" fun bit => (.ok bit : Result Bool)).2 = .ok true ∧
      (agreement.run registry "f" fun bit => (.ok bit : Result Bool)).1.length = agreement.width := by
  have ok : ((⟨2,["two"],fun _ => some "two"⟩ : Agreement).run
      [⟨"one",fun _ => some true⟩,⟨"two",fun _ => some false⟩,⟨"three",fun _ => some true⟩] "f"
      fun bit => (.ok bit : Result Bool)).2 = .ok true := by decide +kernel
  exact ⟨ok,((run_fail_closed [⟨"one",fun _ => some true⟩,⟨"two",fun _ => some false⟩,⟨"three",fun _ => some true⟩]
    (by decide) ⟨2,["two"],fun _ => some "two"⟩ (by decide) "f" fun bit => (.ok bit : Result Bool)).1 true ok).2.1⟩

end Agreement

end Polyguard.Proxy
