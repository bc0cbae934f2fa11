import Polyguard.Trailer.Declarations

/-! The two radix sorts of the declared names, as their loops run.
A pass of either routine is a counting pass, so that no index leaves its array, and the
passes together sort the names and keep equal names in their order. What is read off the
sorted names is exact therefore: the earliest repeated name, equal neighbours, and membership. -/
namespace Polyguard

namespace TrailerTransitionPhases

/-- Each offset is the one before it and the count in between. -/
def offsetsOf (counts : List Nat) : List Nat := counts.dropLast.scanl (· + ·) 0

/-- The loop of `radix_order` for one position. -/
def radixPass (indexedNames : List (Nat × List UInt8)) (position : Nat) : Option (List (Nat × List UInt8)) := do
  let counts ← indexedNames.foldlM (Radix.tally fun entry => radixBucket position entry.2) (List.replicate 128 0)
  let (ordered,_) ← indexedNames.foldlM (Radix.place fun entry => radixBucket position entry.2)
    (List.replicate indexedNames.length (0,[]),offsetsOf counts)
  return ordered

def radixOrder (indexedNames : List (Nat × List UInt8)) : Option (List (Nat × List UInt8)) :=
  (List.range trailerNameBytes).reverse.foldlM radixPass indexedNames

end TrailerTransitionPhases

namespace TrailerDirectTable

/-- The loop of `radix_order` for one position, on the names and the scratch list. -/
def radixPass (state : List (List UInt8) × List (List UInt8)) (position : Nat) : Option (List (List UInt8) × List (List UInt8)) := do
  let ordered ← Radix.countingPass 257 (radixBucket position) state.2 state.1
  return (ordered,state.1)

def radixOrder (names : List (List UInt8)) : Option (List (List UInt8)) := do
  let (names,_) ← (List.range trailerNameBytes).reverse.foldlM radixPass (names,List.replicate names.length [])
  return names

end TrailerDirectTable

namespace TrailerDeclarations
open Ascii Slices

section Passes

theorem starts_scanl (counts : List Nat) (total count : Nat) :
    Radix.starts total (counts ++ [count]) = counts.scanl (· + ·) total := by
  induction counts generalizing total with
  | nil => rfl
  | cons first counts ih =>
    rw [List.cons_append,Radix.starts,ih]
    simp

theorem offsetsOf_starts {counts : List Nat} (some : counts ≠ []) : TrailerTransitionPhases.offsetsOf counts = Radix.starts 0 counts := by
  conv_rhs => rw [← List.dropLast_append_getLast some]
  rw [starts_scanl]
  rfl

variable {α : Type} {key : α → List UInt8} {buckets : Nat}

/-- Entries with short keys, whose bytes have a bucket. -/
structure Sortable (buckets : Nat) (key : α → List UInt8) (entries : List α) : Prop where
  short : Short (entries.map key)
  small : ∀ entry ∈ entries, ∀ b ∈ key entry, b.toNat + 1 < buckets

theorem Sortable.perm {entries others : List α} (sortable : Sortable buckets key entries) (same : others.Perm entries) :
    Sortable buckets key others := by
  constructor
  · intro name member
    exact sortable.short name ((same.map key).mem_iff.mp member)
  · exact fun entry member => sortable.small entry (same.mem_iff.mp member)

theorem Sortable.bucket {entries : List α} (sortable : Sortable buckets key entries) (some : 0 < buckets) (position : Nat) :
    ∀ entry ∈ entries, radixBucket position (key entry) < buckets := by
  intro entry member
  rcases Nat.lt_or_ge position (key entry).length with inside | outside
  · rw [radixBucket_byte inside]
    exact sortable.small entry member _ (List.getElem_mem inside)
  · rw [radixBucket_end outside]
    exact some

theorem radixPass_perm {entries : List α} (sortable : Sortable buckets key entries) (some : 0 < buckets) (position : Nat) :
    (radixPass buckets key entries position).Perm entries := Radix.distribute_perm (sortable.bucket some position)

theorem radixPass_filter {entries : List α} (sortable : Sortable buckets key entries) (some : 0 < buckets) (position : Nat)
    (name : List UInt8) : (radixPass buckets key entries position).filter (key · == name) = entries.filter (key · == name) := by
  have rows (number : Nat) : (entries.filter fun entry => radixBucket position (key entry) == number).filter (key · == name) =
      if number = radixBucket position name then entries.filter (key · == name) else [] := by
    rw [List.filter_filter]
    split
    · rename_i same
      apply List.filter_congr
      intro entry _
      cases hit : key entry == name with
      | false => rfl
      | true => rw [beq_iff_eq.mp hit,same,BEq.rfl,Bool.and_self]
    · rename_i other
      apply List.filter_eq_nil_iff.mpr
      intro entry _ both
      rw [Bool.and_eq_true,beq_iff_eq,beq_iff_eq] at both
      exact other (by rw [← both.2,both.1])
  unfold radixPass Radix.distribute
  rw [List.filter_flatMap]
  simp only [rows]
  by_cases within : radixBucket position name < buckets
  · have parts := Radix.rows_split (fun number => if number = radixBucket position name then entries.filter (key · == name) else []) within
    refine parts.trans ?_
    have front : Radix.rows (radixBucket position name) (fun number => if number = radixBucket position name then
        entries.filter (key · == name) else []) = [] := by
      apply List.flatMap_eq_nil_iff.mpr
      intro number before
      rw [if_neg (Nat.ne_of_lt (List.mem_range.mp before))]
    have back : (List.range' (radixBucket position name + 1) (buckets - radixBucket position name - 1)).flatMap (fun number =>
        if number = radixBucket position name then entries.filter (key · == name) else []) = [] := by
      apply List.flatMap_eq_nil_iff.mpr
      intro number behind
      rw [List.mem_range'_1] at behind
      rw [if_neg (by omega)]
    rw [front,back,if_pos rfl,List.nil_append,List.append_nil]
  · have absent : entries.filter (key · == name) = [] := by
      apply List.filter_eq_nil_iff.mpr
      intro entry member hit
      have low := sortable.bucket some position entry member
      rw [beq_iff_eq.mp hit] at low
      exact within low
    rw [absent]
    simp

/-- What a sort of entries by their keys is to be: a permutation in the order of the keys that keeps the order of
entries with one key. -/
structure SortedBy (key : α → List UInt8) (entries ordered : List α) : Prop where
  permuted : ordered.Perm entries
  sorted : ordered.Pairwise fun left right => key left ≤ key right
  stable : ∀ name, ordered.filter (key · == name) = entries.filter (key · == name)

theorem radixOrder_sorted {entries : List α} (sortable : Sortable buckets key entries) (some : 0 < buckets) :
    SortedBy key entries (radixOrder buckets key entries) := by
  have kept (positions : List Nat) : ∀ {given : List α}, Sortable buckets key given →
      (positions.foldl (radixPass buckets key) given).Perm given ∧
        ∀ name, (positions.foldl (radixPass buckets key) given).filter (key · == name) = given.filter (key · == name) := by
    induction positions with
    | nil => exact fun _ => ⟨.refl _,fun _ => rfl⟩
    | cons position positions ih =>
      intro given sortable
      have once := radixPass_perm sortable some position
      obtain ⟨permuted,filters⟩ := ih (sortable.perm once)
      refine ⟨permuted.trans once,fun name => ?_⟩
      rw [List.foldl_cons,filters,radixPass_filter sortable some]
  obtain ⟨permuted,stable⟩ := kept (List.range trailerNameBytes).reverse sortable
  have sorted := Ordered.pairwise_sort (entries.map key)
  rw [← radixOrder_sort buckets key sortable.short sortable.small some,List.pairwise_map] at sorted
  exact ⟨permuted,sorted,stable⟩

theorem phases_order {entries : List (Nat × List UInt8)} (sortable : Sortable 128 Prod.snd entries) :
    TrailerTransitionPhases.radixOrder entries = some (radixOrder 128 Prod.snd entries) := by
  have once (position : Nat) {given : List (Nat × List UInt8)} (sortable : Sortable 128 Prod.snd given) :
      TrailerTransitionPhases.radixPass given position = some (radixPass 128 Prod.snd given position) := by
    have counted := Radix.countingPass_distribute (List.replicate given.length (0,[])) (sortable.bucket (by decide) position)
      List.length_replicate
    have tallied := Radix.tally_counts (sortable.bucket (by decide) position) fun _ => 0
    rw [show (Radix.table 128 fun _ => 0) = List.replicate 128 0 by simp] at tallied
    unfold Radix.countingPass at counted
    unfold TrailerTransitionPhases.radixPass
    rw [tallied] at counted ⊢
    simp only [Option.bind_eq_bind,Option.bind_some] at counted ⊢
    rw [offsetsOf_starts (by simp)]
    exact counted
  have run (positions : List Nat) : ∀ {given : List (Nat × List UInt8)}, Sortable 128 Prod.snd given →
      positions.foldlM TrailerTransitionPhases.radixPass given = some (positions.foldl (radixPass 128 Prod.snd) given) := by
    induction positions with
    | nil => exact fun _ => rfl
    | cons position positions ih =>
      intro given sortable
      rw [List.foldlM_cons,once position sortable]
      exact ih (sortable.perm (radixPass_perm sortable (by decide) position))
  exact run _ sortable

theorem table_order {names : List (List UInt8)} (sortable : Sortable 257 id names) :
    TrailerDirectTable.radixOrder names = some (radixOrder 257 id names) := by
  have run (positions : List Nat) : ∀ (given scratch : List (List UInt8)), Sortable 257 id given → scratch.length = given.length →
      ∃ rest, positions.foldlM TrailerDirectTable.radixPass (given,scratch) = some (positions.foldl (radixPass 257 id) given,rest) := by
    induction positions with
    | nil => exact fun _ _ _ _ => ⟨_,rfl⟩
    | cons position positions ih =>
      intro given scratch sortable sized
      have permuted := radixPass_perm sortable (by decide) position
      obtain ⟨rest,ran⟩ := ih _ given (sortable.perm permuted) permuted.length_eq.symm
      refine ⟨rest,?_⟩
      have once : TrailerDirectTable.radixPass (given,scratch) position = some (radixPass 257 id given position,given) := by
        have counted := Radix.countingPass_distribute scratch (sortable.bucket (by decide) position) sized
        change Radix.countingPass 257 (radixBucket position) scratch given = _ at counted
        unfold TrailerDirectTable.radixPass
        dsimp only
        rw [counted]
        rfl
      rw [List.foldlM_cons,once]
      exact ran
  obtain ⟨rest,ran⟩ := run (List.range trailerNameBytes).reverse names (List.replicate names.length []) sortable
    List.length_replicate
  unfold TrailerDirectTable.radixOrder
  rw [ran]
  rfl

end Passes

section Repeats
open TrailerTransitionPhases

local instance texts_lawful : LawfulBEq (List UInt8) := inferInstance

/-- The indices of the entries whose names have been met before. -/
def repeats (met : List (List UInt8)) : List (Nat × List UInt8) → List Nat
  | [] => []
  | (index,name) :: entries => if name ∈ met then index :: repeats met entries else repeats (name :: met) entries

/-- The loop of `earliest_duplicate` keeps the least of the repeated indices. -/
theorem duplicateFrom_repeats {entries : List (Nat × List UInt8)} {group : Group} {earliest : Option Nat} (met : List (List UInt8))
    (sorted : (group.name :: entries.map Prod.snd).Pairwise (· ≤ ·)) (current : group.name ∈ met) (below : ∀ name ∈ met, name ≤ group.name)
    (above : ∀ entry ∈ entries, entry.2 = group.name → group.lowest < entry.1 ∧ ∀ second ∈ group.second, second < entry.1)
    (rising : entries.Pairwise fun left right => left.2 = right.2 → left.1 < right.1) :
    duplicateFrom earliest group entries =
      (repeats met entries).foldl (fun least index => earliestOf least (some index)) (earliestOf earliest group.second) := by
  induction entries generalizing group earliest met with
  | nil => rfl
  | cons entry entries ih =>
    obtain ⟨index,name⟩ := entry
    obtain ⟨after,rising⟩ := List.pairwise_cons.mp rising
    obtain ⟨greater,sorted⟩ := List.pairwise_cons.mp sorted
    have later := List.forall_mem_cons.mp above
    unfold duplicateFrom repeats
    by_cases same : name = group.name
    · obtain ⟨lowest,seconds⟩ := later.1 same
      have least : earliestOf earliest (group.add index).second = earliestOf (earliestOf earliest group.second) (some index) := by
        unfold Group.add
        rw [if_neg (Nat.not_lt_of_lt lowest)]
        cases held : group.second with
        | none => cases earliest <;> rfl
        | some second =>
          have before := seconds second held
          dsimp only
          rw [if_neg (Nat.not_lt_of_lt before),held]
          cases earliest with
          | none => simp [earliestOf,Nat.min_eq_left (Nat.le_of_lt before)]
          | some first =>
            simp only [earliestOf,Option.some.injEq]
            omega
      have named : (group.add index).name = group.name := by
        unfold Group.add
        split
        · rfl
        · split
          · rfl
          · split <;> rfl
      have low : (group.add index).lowest = group.lowest := by
        unfold Group.add
        rw [if_neg (Nat.not_lt_of_lt lowest)]
        split
        · rfl
        · split <;> rfl
      have second : ∀ held ∈ (group.add index).second, held = index ∨ held ∈ group.second := by
        unfold Group.add
        rw [if_neg (Nat.not_lt_of_lt lowest)]
        split
        · intro held given
          exact .inl (Option.some.inj given).symm
        · split
          · intro held given
            exact .inl (Option.some.inj given).symm
          · exact fun held given => .inr given
      rw [if_pos (by simp [same]),if_pos (same ▸ current),List.foldl_cons,← least]
      apply ih met
      · rw [named,← same]
        exact sorted
      · rwa [named]
      · rwa [named]
      · rw [named,low]
        intro entry member equal
        refine ⟨(later.2 entry member equal).1,fun held given => ?_⟩
        rcases second held given with rfl | before
        · exact after entry member (same.trans equal.symm)
        · exact (later.2 entry member equal).2 held before
      · exact rising
    · have fresh : name ∉ met := fun member => same (le_antisymm (below name member) (greater name (by simp)))
      rw [if_neg (by simpa using same),if_neg fresh]
      refine (ih (name :: met) ?_ List.mem_cons_self ?_ ?_ rising).trans ?_
      · exact sorted
      · intro other member
        rcases List.mem_cons.mp member with rfl | before
        · exact le_refl _
        · exact (below other before).trans (greater name (by simp))
      · intro entry member equal
        refine ⟨after entry member equal.symm,?_⟩
        rintro second ⟨⟩
      · congr 1
        cases earliestOf earliest group.second <;> rfl

theorem earliestDuplicate_repeats {entries : List (Nat × List UInt8)} (sorted : entries.Pairwise fun left right => left.2 ≤ right.2)
    (rising : entries.Pairwise fun left right => left.2 = right.2 → left.1 < right.1) :
    earliestDuplicate entries = (repeats [] entries).min? := by
  have folded (indices : List Nat) (start : Option Nat) : indices.foldl (fun least index => earliestOf least (some index)) start =
      earliestOf start indices.min? := by
    induction indices generalizing start with
    | nil => cases start <;> rfl
    | cons index indices ih =>
      rw [List.foldl_cons,ih,List.min?_cons]
      cases start <;> cases indices.min? <;> simp [earliestOf,Nat.min_assoc]
  rcases entries with _ | ⟨⟨index,name⟩,entries⟩
  · rfl
  · obtain ⟨after,rising⟩ := List.pairwise_cons.mp rising
    have named : (name :: entries.map Prod.snd).Pairwise (· ≤ ·) := List.pairwise_map.mpr sorted
    change duplicateFrom none ⟨name,index,none⟩ entries = _
    rw [@duplicateFrom_repeats entries ⟨name,index,none⟩ none [name] named (by simp) (by simp) ?_ rising,folded]
    · rw [repeats,if_neg (by simp)]
      cases (repeats [name] entries).min? <;> rfl
    · intro entry member equal
      refine ⟨after entry member equal.symm,?_⟩
      rintro second ⟨⟩

theorem mem_repeats {entries : List (Nat × List UInt8)} {met : List (List UInt8)} {index : Nat} : index ∈ repeats met entries ↔
    ∃ name, index ∈ ((if name ∈ met then entries.filter (·.2 == name) else (entries.filter (·.2 == name)).tail)).map Prod.fst := by
  induction entries generalizing met with
  | nil => simp [repeats]
  | cons entry entries ih =>
    obtain ⟨first,name⟩ := entry
    have skipped {other : List UInt8} (differ : other ≠ name) : ((first,name) :: entries).filter (·.2 == other) =
        entries.filter (·.2 == other) := List.filter_cons_of_neg (by simpa using Ne.symm differ)
    have taken : ((first,name) :: entries).filter (·.2 == name) = (first,name) :: entries.filter (·.2 == name) :=
      List.filter_cons_of_pos (by simp)
    unfold repeats
    by_cases before : name ∈ met
    · rw [if_pos before,List.mem_cons,ih]
      constructor
      · rintro (rfl | ⟨other,found⟩)
        · refine ⟨name,?_⟩
          rw [if_pos before,taken]
          simp
        · refine ⟨other,?_⟩
          by_cases same : other = name
          · subst same
            rw [if_pos before] at found
            rw [if_pos before,taken]
            exact List.mem_cons_of_mem _ found
          · rwa [skipped same]
      · rintro ⟨other,found⟩
        by_cases same : other = name
        · subst same
          rw [if_pos before,taken,List.map_cons,List.mem_cons] at found
          rcases found with here | later
          · exact .inl here
          · refine .inr ⟨other,?_⟩
            rwa [if_pos before]
        · rw [skipped same] at found
          exact .inr ⟨other,found⟩
    · rw [if_neg before,ih]
      refine exists_congr fun other => ?_
      by_cases same : other = name
      · subst same
        rw [if_pos List.mem_cons_self,if_neg before,taken,List.tail_cons]
      · rw [skipped same]
        simp [same]

/-- Names with the indices of their places. -/
def indexedNames (names : List (List UInt8)) : List (Nat × List UInt8) := names.zipIdx.map Prod.swap

/-- The name at an index has occurred before. -/
def Repeats (names : List (List UInt8)) (index : Nat) : Prop := ∃ name, names[index]? = some name ∧ name ∈ names.take index

theorem repeats_indexed (names met : List (List UInt8)) (start index : Nat) : index ∈ repeats met ((names.zipIdx start).map Prod.swap) ↔
    ∃ place, index = start + place ∧ ∃ name, names[place]? = some name ∧ (name ∈ met ∨ name ∈ names.take place) := by
  induction names generalizing met start with
  | nil => simp [repeats]
  | cons first names ih =>
    rw [List.zipIdx_cons,List.map_cons,Prod.swap_prod_mk,repeats]
    constructor
    · intro found
      split at found
      · rename_i before
        rcases List.mem_cons.mp found with rfl | later
        · exact ⟨0,rfl,first,rfl,.inl before⟩
        · obtain ⟨place,rfl,name,placed,met⟩ := (ih met (start + 1)).mp later
          refine ⟨place + 1,by omega,name,placed,met.imp id fun earlier => ?_⟩
          rw [List.take_succ_cons]
          exact List.mem_cons_of_mem _ earlier
      · obtain ⟨place,rfl,name,placed,met⟩ := (ih (first :: met) (start + 1)).mp found
        refine ⟨place + 1,by omega,name,placed,?_⟩
        rw [List.take_succ_cons,List.mem_cons]
        rcases met with met | earlier
        · rcases List.mem_cons.mp met with rfl | met
          · exact .inr (.inl rfl)
          · exact .inl met
        · exact .inr (.inr earlier)
    · rintro ⟨place,rfl,name,placed,met⟩
      cases place with
      | zero =>
        cases placed
        rcases met with met | nothing
        · rw [if_pos met]
          exact List.mem_cons_self
        · cases nothing
      | succ place =>
        rw [List.take_succ_cons,List.mem_cons] at met
        split
        · rename_i before
          refine List.mem_cons_of_mem _ ((ih _ _).mpr ⟨place,by omega,name,placed,?_⟩)
          rcases met with met | rfl | earlier
          · exact .inl met
          · exact .inl before
          · exact .inr earlier
        · refine (ih _ _).mpr ⟨place,by omega,name,placed,?_⟩
          rcases met with met | rfl | earlier
          · exact .inl (List.mem_cons_of_mem _ met)
          · exact .inl List.mem_cons_self
          · exact .inr earlier

/-- Entries that keep their order within each name keep what holds of them in their order there. -/
theorem pairwise_filters {R : Nat × List UInt8 → Nat × List UInt8 → Prop} {entries : List (Nat × List UInt8)}
    (each : ∀ name, (entries.filter (·.2 == name)).Pairwise R) : entries.Pairwise fun left right => left.2 = right.2 → R left right := by
  induction entries with
  | nil => exact .nil
  | cons entry entries ih =>
    refine List.pairwise_cons.mpr ⟨fun other member same => ?_,ih fun name => ?_⟩
    · have here := each entry.2
      rw [List.filter_cons_of_pos (by simp)] at here
      exact (List.pairwise_cons.mp here).1 other (List.mem_filter.mpr ⟨member,by simp [same]⟩)
    · exact (each name).sublist ((List.sublist_cons_self entry entries).filter _)

theorem indexedNames_names (names : List (List UInt8)) : (indexedNames names).map Prod.snd = names := by
  rw [indexedNames,List.map_map]
  exact List.zipIdx_map_fst 0 names

theorem indexedNames_rising (names : List (List UInt8)) : (indexedNames names).Pairwise fun left right => left.1 < right.1 := by
  rw [← List.pairwise_map (f := Prod.fst),indexedNames,List.map_map]
  change (names.zipIdx.map Prod.snd).Pairwise (· < ·)
  rw [List.zipIdx_map_snd]
  exact List.pairwise_lt_range'

theorem nodup_repeats (names : List (List UInt8)) : names.Nodup ↔ ∀ index, ¬Repeats names index := by
  induction names using List.reverseRecOn with
  | nil => simp [Repeats]
  | append_singleton names last ih =>
    rw [List.nodup_append_comm,List.singleton_append,List.nodup_cons,ih]
    constructor
    · rintro ⟨fresh,distinct⟩ index ⟨name,placed,met⟩
      obtain ⟨inside,-⟩ := List.getElem?_eq_some_iff.mp placed
      rw [List.length_append,List.length_singleton] at inside
      rw [List.take_append_of_le_length (by omega)] at met
      rcases Nat.lt_or_eq_of_le (Nat.le_of_lt_succ inside) with before | rfl
      · rw [List.getElem?_append_left before] at placed
        exact distinct index ⟨name,placed,met⟩
      · rw [List.getElem?_concat_length] at placed
        cases placed
        rw [List.take_length] at met
        exact fresh met
    · intro none
      constructor
      · intro member
        refine none names.length ⟨last,List.getElem?_concat_length,?_⟩
        rwa [List.take_left]
      · rintro index ⟨name,placed,met⟩
        obtain ⟨inside,-⟩ := List.getElem?_eq_some_iff.mp placed
        refine none index ⟨name,?_,?_⟩
        · rwa [List.getElem?_append_left inside]
        · rwa [List.take_append_of_le_length (Nat.le_of_lt inside)]

theorem earliestDuplicate_least {names : List (List UInt8)} {ordered : List (Nat × List UInt8)}
    (sorted : SortedBy Prod.snd (indexedNames names) ordered) :
    (∀ index, earliestDuplicate ordered = some index ↔ Repeats names index ∧ ∀ earlier < index, ¬Repeats names earlier) ∧
      (earliestDuplicate ordered = none ↔ names.Nodup) := by
  have rising : ordered.Pairwise fun left right => left.2 = right.2 → left.1 < right.1 := by
    apply pairwise_filters
    intro name
    rw [sorted.stable]
    exact (indexedNames_rising names).filter _
  have members (index : Nat) : index ∈ repeats [] ordered ↔ Repeats names index := by
    have same : index ∈ repeats [] ordered ↔ index ∈ repeats [] (indexedNames names) := by
      rw [mem_repeats,mem_repeats]
      simp only [sorted.stable]
    rw [same,indexedNames,repeats_indexed]
    constructor
    · rintro ⟨place,rfl,name,placed,met⟩
      rw [Nat.zero_add]
      exact ⟨name,placed,met.resolve_left (by simp)⟩
    · rintro ⟨name,placed,met⟩
      exact ⟨index,by omega,name,placed,.inr met⟩
  rw [earliestDuplicate_repeats sorted.sorted rising]
  constructor
  · intro index
    rw [List.min?_eq_some_iff]
    simp only [members]
    constructor
    · rintro ⟨found,least⟩
      exact ⟨found,fun earlier before again => Nat.not_le_of_lt before (least earlier again)⟩
    · rintro ⟨found,none⟩
      exact ⟨found,fun other again => Nat.not_lt.mp fun before => none other before again⟩
  · rw [List.min?_eq_none_iff,List.eq_nil_iff_forall_not_mem,nodup_repeats]
    simp only [members]

end Repeats

section Exact
open TrailerTransitionPhases

theorem indexed_sortable {entries : List (Nat × List UInt8)} (tokens : ∀ name ∈ entries.map Prod.snd, name.length ≤ trailerNameBytes ∧
    ∀ b ∈ name, isTchar b) : Sortable 128 Prod.snd entries := by
  constructor
  · exact fun name member => (tokens name member).1
  · exact fun entry member b inside => tchar_small b ((tokens entry.2 (List.mem_map_of_mem member)).2 b inside)

/-- Both sorts run through and sort the names, and what is read off the sorted names is exact. -/
theorem radix_order_exact (names : List (List UInt8)) (tokens : ∀ name ∈ names, name.length ≤ trailerNameBytes ∧ ∀ b ∈ name, isTchar b) :
    (∀ entries : List (Nat × List UInt8), entries.map Prod.snd = names → ∃ ordered, TrailerTransitionPhases.radixOrder entries = some ordered ∧
      SortedBy Prod.snd entries ordered ∧ ∀ name, (Ordered.binarySearch (ordered.map Prod.snd) name).isSome ↔ name ∈ names) ∧
    (∃ ordered, TrailerTransitionPhases.radixOrder (indexedNames names) = some ordered ∧
      (∀ index, earliestDuplicate ordered = some index ↔ Repeats names index ∧ ∀ earlier < index, ¬Repeats names earlier) ∧
      (earliestDuplicate ordered = none ↔ names.Nodup)) ∧
    ∃ ordered, TrailerDirectTable.radixOrder names = some ordered ∧ SortedBy id names ordered ∧
      (hasEqualNeighbours ordered = true ↔ ¬names.Nodup) := by
  have sorts (entries : List (Nat × List UInt8)) (same : entries.map Prod.snd = names) :
      ∃ ordered, TrailerTransitionPhases.radixOrder entries = some ordered ∧ SortedBy Prod.snd entries ordered := by
    have sortable : Sortable 128 Prod.snd entries := indexed_sortable (by rwa [same])
    exact ⟨_,phases_order sortable,radixOrder_sorted sortable (by decide)⟩
  refine ⟨fun entries same => ?_,?_,?_⟩
  · obtain ⟨ordered,ran,sorted⟩ := sorts entries same
    refine ⟨ordered,ran,sorted,fun name => ?_⟩
    rw [Ordered.binarySearch_mem (List.pairwise_map.mpr sorted.sorted),(sorted.permuted.map Prod.snd).mem_iff,same]
  · obtain ⟨ordered,ran,sorted⟩ := sorts (indexedNames names) (indexedNames_names names)
    exact ⟨ordered,ran,earliestDuplicate_least sorted⟩
  · have sortable : Sortable 257 id names := by
      constructor
      · rw [List.map_id]
        exact fun name member => (tokens name member).1
      · exact fun name _ b _ => Nat.succ_lt_succ (UInt8.toNat_lt b)
    have sorted := radixOrder_sorted sortable (by decide)
    refine ⟨_,table_order sortable,sorted,?_⟩
    rw [← Bool.not_eq_false,equalNeighbours_sorted sorted.sorted,sorted.permuted.nodup_iff]

/-- A name, a longer one that it begins, and the name once more. -/
theorem radix_order_exact_prefix : ∃ ordered, TrailerTransitionPhases.radixOrder (indexedNames [ascii "ab",ascii "a",ascii "ab"]) = some ordered ∧
    (∀ index, earliestDuplicate ordered = some index ↔ Repeats [ascii "ab",ascii "a",ascii "ab"] index ∧
      ∀ earlier < index, ¬Repeats [ascii "ab",ascii "a",ascii "ab"] earlier) ∧
    (earliestDuplicate ordered = none ↔ [ascii "ab",ascii "a",ascii "ab"].Nodup) :=
  (radix_order_exact [ascii "ab",ascii "a",ascii "ab"] (by decide +kernel)).2.1

end Exact
end TrailerDeclarations
end Polyguard
