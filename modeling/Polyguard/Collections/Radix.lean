import Mathlib.Algebra.GroupWithZero.Nat
import Mathlib.Data.List.Perm.Basic
import Mathlib.Tactic.Common
import Mathlib.Logic.Function.Basic

/-! Radix sorting by stable distribution.
A pass distributes the entries over numbered buckets and joins the buckets. It orders
by the bucket and, within a bucket, keeps the order from before; passes from the last
position to the first order by all positions.

A pass by counting tallies the entries of each bucket, lets each bucket start behind the ones
before it and writes every entry where its bucket continues. Whatever the array held that it
writes to, the pass ends in the distribution, and no index leaves an array. -/
namespace Polyguard.Radix

variable {α : Type}

def distribute (buckets : Nat) (bucket : α → Nat) (entries : List α) : List α :=
  (List.range buckets).flatMap fun number => entries.filter fun entry => bucket entry == number

/-- Ordered by the bucket first and by another relation within a bucket. -/
def Within (bucket : α → Nat) (r : α → α → Prop) (left right : α) : Prop :=
  bucket left < bucket right ∨ (bucket left = bucket right ∧ r left right)

theorem distribute_below (buckets : Nat) (bucket : α → Nat) (entries : List α) :
    (distribute buckets bucket entries).Perm (entries.filter fun entry => bucket entry < buckets) := by
  induction buckets with
  | zero => simp [distribute]
  | succ buckets ih =>
    rw [distribute,List.range_succ,List.flatMap_append]
    simp only [List.flatMap_singleton]
    refine (List.Perm.append_right _ ih).trans ?_
    have split := List.filter_append_perm (fun entry => decide (bucket entry < buckets))
      (entries.filter fun entry => bucket entry < buckets + 1)
    simp only [List.filter_filter] at split
    have low : (entries.filter fun entry => decide (bucket entry < buckets) && decide (bucket entry < buckets + 1)) =
        entries.filter fun entry => bucket entry < buckets := by
      apply List.filter_congr
      intro entry _
      by_cases below : bucket entry < buckets
      · simp [below,Nat.lt_succ_of_lt below]
      · simp [below]
    have top : (entries.filter fun entry => !decide (bucket entry < buckets) && decide (bucket entry < buckets + 1)) =
        entries.filter fun entry => bucket entry == buckets := by
      apply List.filter_congr
      intro entry _
      rw [Bool.eq_iff_iff]
      simp only [Bool.and_eq_true,Bool.not_eq_true',decide_eq_false_iff_not,decide_eq_true_eq,beq_iff_eq]
      omega
    rw [low,top] at split
    exact split

theorem distribute_perm {buckets : Nat} {bucket : α → Nat} {entries : List α} (small : ∀ entry ∈ entries, bucket entry < buckets) :
    (distribute buckets bucket entries).Perm entries := by
  have below := distribute_below buckets bucket entries
  rwa [List.filter_eq_self.mpr fun entry member => by simpa using small entry member] at below

theorem distribute_within {r : α → α → Prop} (buckets : Nat) (bucket : α → Nat) {entries : List α} (ordered : entries.Pairwise r) :
    (distribute buckets bucket entries).Pairwise (Within bucket r) := by
  rw [distribute,List.pairwise_flatMap]
  constructor
  · intro number _
    refine (ordered.filter _).imp_of_mem ?_
    intro left right leftMember rightMember related
    have leftBucket : bucket left = number := by simpa using (List.mem_filter.mp leftMember).2
    have rightBucket : bucket right = number := by simpa using (List.mem_filter.mp rightMember).2
    exact .inr ⟨leftBucket.trans rightBucket.symm,related⟩
  · refine List.pairwise_lt_range.imp ?_
    intro low high below left leftMember right rightMember
    have leftBucket : bucket left = low := by simpa using (List.mem_filter.mp leftMember).2
    have rightBucket : bucket right = high := by simpa using (List.mem_filter.mp rightMember).2
    exact .inl (by omega)

/-- Ordered by the positions from one on, up to an end. -/
def Positions (bucket : Nat → α → Nat) : Nat → Nat → α → α → Prop
  | _,0 => fun _ _ => True
  | position,count + 1 => Within (bucket position) (Positions bucket (position + 1) count)

/-- The passes over a number of positions that end before a given one. -/
def passes (buckets : Nat) (bucket : Nat → α → Nat) : Nat → Nat → List α → List α
  | _,0,entries => entries
  | position,count + 1,entries => distribute buckets (bucket position) (passes buckets bucket (position + 1) count entries)

theorem passes_perm {buckets : Nat} {bucket : Nat → α → Nat} {entries : List α}
    (small : ∀ position, ∀ entry ∈ entries, bucket position entry < buckets) :
    ∀ count position, (passes buckets bucket position count entries).Perm entries := by
  intro count
  induction count with
  | zero => exact fun _ => .refl _
  | succ count ih =>
    intro position
    have before := ih (position + 1)
    refine (distribute_perm ?_).trans before
    intro entry member
    exact small position entry (before.mem_iff.mp member)

theorem passes_ordered (buckets : Nat) (bucket : Nat → α → Nat) (entries : List α) :
    ∀ count position, (passes buckets bucket position count entries).Pairwise (Positions bucket position count) := by
  intro count
  induction count with
  | zero =>
    intro position
    exact List.pairwise_iff_forall_sublist.mpr fun _ => trivial
  | succ count ih =>
    intro position
    exact distribute_within buckets (bucket position) (ih (position + 1))

theorem foldl_passes (buckets : Nat) (bucket : Nat → α → Nat) (entries : List α) (count start : Nat) :
    (List.range' start count).reverse.foldl (fun entries position => distribute buckets (bucket position) entries) entries =
      passes buckets bucket start count entries := by
  induction count generalizing start with
  | zero => rfl
  | succ count ih =>
    rw [List.range'_succ,List.reverse_cons,List.foldl_append,ih]
    rfl

section Pass

/-- The counters behind one more entry, when its bucket has a counter. -/
def tally (bucket : α → Nat) (counts : List Nat) (entry : α) : Option (List Nat) :=
  counts[bucket entry]?.map fun count => counts.set (bucket entry) (count + 1)

/-- The running total in front of each count. -/
def starts : Nat → List Nat → List Nat
  | _,[] => []
  | total,count :: counts => total :: starts (total + count) counts

/-- An entry is written where its bucket continues, when that is inside of the array. -/
def place (bucket : α → Nat) (state : List α × List Nat) (entry : α) : Option (List α × List Nat) :=
  state.2[bucket entry]?.bind fun slot =>
    if slot < state.1.length then some (state.1.set slot entry,state.2.set (bucket entry) (slot + 1)) else none

def countingPass (buckets : Nat) (bucket : α → Nat) (scratch entries : List α) : Option (List α) := do
  let counts ← entries.foldlM (tally bucket) (List.replicate buckets 0)
  let (ordered,_) ← entries.foldlM (place bucket) (scratch,starts 0 counts)
  return ordered

end Pass

section Arrays

/-- An array of values by their indices. -/
abbrev table {β : Type} (size : Nat) (values : Nat → β) : List β := (List.range size).map values

theorem table_get {β : Type} {size index : Nat} (values : Nat → β) (inside : index < size) :
    (table size values)[index]? = some (values index) := by
  simp [inside]

theorem table_set {β : Type} {size : Nat} (values : Nat → β) (index : Nat) (value : β) :
    (table size values).set index value = table size (Function.update values index value) := by
  apply List.ext_getElem
  · simp
  · intro place left right
    rw [List.getElem_set]
    simp only [List.getElem_map,List.getElem_range]
    by_cases same : index = place
    · subst same
      simp
    · simp [same,Function.update_of_ne (Ne.symm same)]

/-- Rows of an array, one behind the other. -/
abbrev rows (size : Nat) (row : Nat → List α) : List α := (List.range size).flatMap row

theorem rows_split {size index : Nat} (row : Nat → List α) (inside : index < size) :
    rows size row = rows index row ++ (row index ++ (List.range' (index + 1) (size - index - 1)).flatMap row) := by
  have parts : List.range size = List.range index ++ index :: List.range' (index + 1) (size - index - 1) := by
    have all := @List.range'_append_1 0 index (size - index)
    rw [Nat.zero_add,← List.range_eq_range',← List.range_eq_range',show index + (size - index) = size by omega] at all
    rw [← all,show size - index = (size - index - 1) + 1 by omega,List.range'_succ]
    simp
  rw [rows,parts,List.flatMap_append,List.flatMap_cons]

theorem rows_congr {size : Nat} {row other : Nat → List α} (same : ∀ index < size, row index = other index) :
    rows size row = rows size other := by
  apply List.flatMap_congr
  intro index member
  exact same index (List.mem_range.mp member)

theorem rows_length_congr {size : Nat} {row other : Nat → List α} (same : ∀ index, (row index).length = (other index).length) :
    (rows size row).length = (rows size other).length := by
  simp only [rows,List.length_flatMap,same]

theorem rows_set {size index offset : Nat} (row : Nat → List α) (inside : index < size) (within : offset < (row index).length) (value : α) :
    (rows size row).set ((rows index row).length + offset) value =
      rows size (Function.update row index ((row index).set offset value)) := by
  have front : rows index (Function.update row index ((row index).set offset value)) = rows index row :=
    rows_congr fun other before => Function.update_of_ne (by omega) ..
  have back : (List.range' (index + 1) (size - index - 1)).flatMap (Function.update row index ((row index).set offset value)) =
      (List.range' (index + 1) (size - index - 1)).flatMap row := by
    apply List.flatMap_congr
    intro other member
    rw [List.mem_range'_1] at member
    exact Function.update_of_ne (by omega) ..
  rw [rows_split row inside,rows_split _ inside,front,back,Function.update_self,List.set_append_right _ _ (by omega),
    Nat.add_sub_cancel_left,List.set_append_left _ _ within]

end Arrays

section Counts
variable {buckets : Nat} {bucket : α → Nat}

theorem tally_counts {entries : List α} (small : ∀ entry ∈ entries, bucket entry < buckets) (counts : Nat → Nat) :
    entries.foldlM (tally bucket) (table buckets counts) =
      some (table buckets fun number => counts number + entries.countP (bucket · == number)) := by
  induction entries generalizing counts with
  | nil => rfl
  | cons entry entries ih =>
    obtain ⟨inside,small⟩ := List.forall_mem_cons.mp small
    have first : tally bucket (table buckets counts) entry =
        some (table buckets (Function.update counts (bucket entry) (counts (bucket entry) + 1))) := by
      rw [tally,table_get counts inside,Option.map_some,table_set]
    rw [List.foldlM_cons,first]
    refine (ih small _).trans (congrArg some (List.map_congr_left fun number _ => ?_))
    rw [List.countP_cons]
    by_cases same : bucket entry = number
    · subst same
      rw [Function.update_self,if_pos BEq.rfl]
      omega
    · rw [Function.update_of_ne (Ne.symm same),if_neg (by simpa using same)]
      rfl

theorem starts_table (counts : List Nat) (total : Nat) :
    starts total counts = table counts.length fun number => total + (counts.take number).sum := by
  induction counts generalizing total with
  | nil => rfl
  | cons count counts ih =>
    rw [starts,ih,table,table,List.length_cons,List.range_succ_eq_map,List.map_cons,List.map_map]
    refine List.cons_eq_cons.mpr ⟨by simp,List.map_congr_left fun number _ => ?_⟩
    simp [Nat.add_assoc]

theorem table_sum_succ (size : Nat) (counts : Nat → Nat) : (table (size + 1) counts).sum = (table size counts).sum + counts size := by
  rw [table,List.range_succ,List.map_append,List.map_singleton,List.sum_append,List.sum_singleton]

theorem table_sum_mono (counts : Nat → Nat) {low high : Nat} (below : low ≤ high) : (table low counts).sum ≤ (table high counts).sum := by
  induction below with
  | refl => exact Nat.le_refl _
  | step _ ih =>
    rw [table_sum_succ]
    omega

theorem rows_cut (scratch : List α) (counts : Nat → Nat) (size : Nat) :
    rows size (fun number => (scratch.drop (table number counts).sum).take (counts number)) = scratch.take (table size counts).sum := by
  induction size with
  | zero => rfl
  | succ size ih =>
    rw [rows,List.range_succ,List.flatMap_append,List.flatMap_singleton]
    change rows size _ ++ _ = _
    rw [ih,table_sum_succ,List.take_add]

end Counts

section Places
variable {buckets : Nat} {bucket : α → Nat}

/-- An array of rows with the places where they continue. -/
def placed (buckets : Nat) (filled spare : Nat → List α) : List α × List Nat :=
  (rows buckets fun number => filled number ++ spare number,
    table buckets fun number => (rows number fun other => filled other ++ spare other).length + (filled number).length)

theorem place_step {filled spare : Nat → List α} {entry : α} (inside : bucket entry < buckets) {cell : α} {rest : List α}
    (room : spare (bucket entry) = cell :: rest) : place bucket (placed buckets filled spare) entry =
      some (placed buckets (Function.update filled (bucket entry) (filled (bucket entry) ++ [entry]))
        (Function.update spare (bucket entry) rest)) := by
  have joined (number : Nat) : Function.update filled (bucket entry) (filled (bucket entry) ++ [entry]) number ++
      Function.update spare (bucket entry) rest number = Function.update (fun number => filled number ++ spare number) (bucket entry)
        ((filled (bucket entry) ++ spare (bucket entry)).set (filled (bucket entry)).length entry) number := by
    by_cases same : number = bucket entry
    · subst same
      simp [room]
    · simp [Function.update_of_ne same]
  have wide : (filled (bucket entry)).length < (filled (bucket entry) ++ spare (bucket entry)).length := by
    rw [room]
    simp
  have bounded : (rows (bucket entry) fun other => filled other ++ spare other).length + (filled (bucket entry)).length <
      (rows buckets fun number => filled number ++ spare number).length := by
    rw [rows_split _ inside,List.length_append,List.length_append]
    omega
  rw [place,placed,table_get _ inside,Option.bind_some,if_pos bounded]
  dsimp only
  rw [rows_set (fun number => filled number ++ spare number) inside wide,table_set]
  refine congrArg some (Prod.ext ?_ ?_)
  · exact rows_congr fun number _ => (joined number).symm
  · refine List.map_congr_left fun number _ => ?_
    have kept : (rows number fun other => filled other ++ spare other).length = (rows number fun other =>
        Function.update filled (bucket entry) (filled (bucket entry) ++ [entry]) other ++
          Function.update spare (bucket entry) rest other).length := by
      apply rows_length_congr
      intro other
      rw [joined]
      by_cases same : other = bucket entry
      · subst same
        simp
      · rw [Function.update_of_ne same]
    by_cases same : number = bucket entry
    · subst same
      rw [Function.update_self,Function.update_self,← kept]
      simp [Nat.add_assoc]
    · rw [Function.update_of_ne same,Function.update_of_ne same,← kept]

theorem place_run {entries : List α} (small : ∀ entry ∈ entries, bucket entry < buckets) {filled spare : Nat → List α}
    (room : ∀ number < buckets, (spare number).length = entries.countP (bucket · == number)) :
    ∃ ends, entries.foldlM (place bucket) (placed buckets filled spare) =
      some (rows buckets fun number => filled number ++ entries.filter fun entry => bucket entry == number,ends) := by
  induction entries generalizing filled spare with
  | nil =>
    refine ⟨_,congrArg some (Prod.ext (rows_congr fun number inside => ?_) rfl)⟩
    rw [List.length_eq_zero_iff.mp (room number inside)]
    rfl
  | cons entry entries ih =>
    obtain ⟨inside,small⟩ := List.forall_mem_cons.mp small
    have size := room (bucket entry) inside
    rw [List.countP_cons,if_pos BEq.rfl] at size
    obtain ⟨cell,rest,left⟩ := List.exists_cons_of_length_eq_add_one size
    have later : ∀ number < buckets, (Function.update spare (bucket entry) rest number).length = entries.countP (bucket · == number) := by
      intro number low
      by_cases same : number = bucket entry
      · subst same
        rw [Function.update_self]
        rw [left,List.length_cons] at size
        omega
      · have given := room number low
        rw [List.countP_cons,if_neg (by simpa using Ne.symm same)] at given
        rw [Function.update_of_ne same,given]
        rfl
    obtain ⟨ends,ran⟩ := ih small later
    refine ⟨ends,?_⟩
    rw [List.foldlM_cons,place_step inside left]
    refine ran.trans (congrArg some (Prod.ext (rows_congr fun number _ => ?_) rfl))
    by_cases same : number = bucket entry
    · subst same
      rw [Function.update_self,List.filter_cons_of_pos (by simp),List.append_assoc]
      rfl
    · rw [Function.update_of_ne same,List.filter_cons_of_neg (by simpa using Ne.symm same)]

theorem counts_sum {entries : List α} (small : ∀ entry ∈ entries, bucket entry < buckets) :
    (table buckets fun number => entries.countP (bucket · == number)).sum = entries.length := by
  have all := (distribute_perm small).length_eq
  rw [distribute,List.length_flatMap] at all
  simp only [← List.countP_eq_length_filter] at all
  exact all

theorem countingPass_distribute {entries : List α} (scratch : List α) (small : ∀ entry ∈ entries, bucket entry < buckets)
    (sized : scratch.length = entries.length) : countingPass buckets bucket scratch entries = some (distribute buckets bucket entries) := by
  have zeros : List.replicate buckets 0 = table buckets fun _ => 0 := by simp
  have counts := tally_counts small fun _ => 0
  simp only [Nat.zero_add] at counts
  have cut : placed buckets (fun _ => []) (fun number =>
      (scratch.drop (table number fun number => entries.countP (bucket · == number)).sum).take (entries.countP (bucket · == number))) =
        (scratch,starts 0 (table buckets fun number => entries.countP (bucket · == number))) := by
    rw [starts_table]
    refine Prod.ext ?_ ?_
    · simp only [placed,List.nil_append]
      rw [rows_cut scratch (fun number => entries.countP (bucket · == number)),counts_sum small,← sized,List.take_length]
    · simp only [placed,List.nil_append,List.length_nil,Nat.add_zero,Nat.zero_add,List.length_map,List.length_range]
      refine List.map_congr_left fun number inside => ?_
      have below := List.mem_range.mp inside
      have front : (table buckets fun number => entries.countP (bucket · == number)).take number =
          table number fun number => entries.countP (bucket · == number) := by
        rw [table,← List.map_take,List.take_range,Nat.min_eq_left (Nat.le_of_lt below)]
      have total : (table number fun number => entries.countP (bucket · == number)).sum ≤ scratch.length := by
        rw [sized,← counts_sum small]
        exact table_sum_mono _ (Nat.le_of_lt below)
      rw [rows_cut scratch (fun number => entries.countP (bucket · == number)),front,List.length_take,Nat.min_eq_left total]
  have room : ∀ number < buckets, ((scratch.drop (table number fun number => entries.countP (bucket · == number)).sum).take
      (entries.countP (bucket · == number))).length = entries.countP (bucket · == number) := by
    intro number below
    have upTo : (table (number + 1) fun number => entries.countP (bucket · == number)).sum ≤ scratch.length := by
      rw [sized,← counts_sum small]
      exact table_sum_mono _ below
    rw [table_sum_succ] at upTo
    rw [List.length_take,List.length_drop]
    omega
  obtain ⟨ends,ran⟩ := place_run small room
  rw [cut] at ran
  rw [countingPass,zeros,counts]
  simp only [Option.bind_eq_bind,Option.bind_some]
  rw [ran]
  rfl

end Places
end Polyguard.Radix
