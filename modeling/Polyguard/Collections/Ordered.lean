import Mathlib.Data.List.Destutter
import Mathlib.Data.List.Lex
import Mathlib.Data.List.Sort
import Mathlib.Order.Compare

/-! Ordered sequences: sorted sets, sorting with adjacent duplicates dropped, and
binary search. Texts are compared as byte lists, and an equal pair cannot be told
apart, so an unstable sort is any sort. -/
namespace Polyguard.Ordered

instance instLinearOrderUInt8 : LinearOrder UInt8 where
  le_refl := UInt8.le_refl
  le_trans _ _ _ := UInt8.le_trans
  le_antisymm _ _ := UInt8.le_antisymm
  le_total := UInt8.le_total
  lt_iff_le_not_ge left right := by
    rw [UInt8.lt_iff_le_and_ne]
    constructor
    · rintro ⟨below,differ⟩
      exact ⟨below,fun above => differ (UInt8.le_antisymm below above)⟩
    · rintro ⟨below,above⟩
      exact ⟨below,fun same => above (same ▸ UInt8.le_refl _)⟩
  toDecidableLE := inferInstance
  toDecidableLT := inferInstance
  toDecidableEq := inferInstance

variable {α : Type} [LinearOrder α]

def sort (items : List α) : List α := items.insertionSort (· ≤ ·)

/-- Insertion into an ordered set. -/
def insert (items : List α) (item : α) : List α := if item ∈ items then items else items.orderedInsert (· ≤ ·) item

/-- A list without the repetitions that stand side by side (`Vec::dedup`). -/
def dedup (items : List α) : List α := items.destutter (· ≠ ·)

/-- The ordered set of the items. -/
def ordered (items : List α) : List α := items.foldl insert []

def Strict (items : List α) : Prop := items.Pairwise (· < ·)

theorem strict_ext {left right : List α} (leftStrict : Strict left) (rightStrict : Strict right)
    (same : ∀ item, item ∈ left ↔ item ∈ right) : left = right :=
  List.Pairwise.eq_of_mem_iff leftStrict rightStrict same

@[simp] theorem mem_insert (items : List α) (item other : α) : other ∈ insert items item ↔ other = item ∨ other ∈ items := by
  unfold insert
  split
  · rename_i inside
    constructor
    · exact .inr
    · rintro (rfl | member)
      · exact inside
      · exact member
  · rw [List.mem_orderedInsert]

theorem strict_insert {items : List α} (strict : Strict items) (item : α) : Strict (insert items item) := by
  unfold insert
  split
  · exact strict
  · rename_i outside
    have sorted : (items.orderedInsert (· ≤ ·) item).Pairwise (· ≤ ·) :=
      List.Pairwise.orderedInsert item items (strict.imp le_of_lt)
    have distinct : (items.orderedInsert (· ≤ ·) item).Nodup := by
      rw [(List.perm_orderedInsert (· ≤ ·) item items).nodup_iff,List.nodup_cons]
      exact ⟨outside,strict.imp ne_of_lt⟩
    exact (sorted.and distinct).imp fun both => lt_of_le_of_ne both.1 both.2

theorem foldl_insert (items reached : List α) (item : α) :
    item ∈ items.foldl insert reached ↔ item ∈ reached ∨ item ∈ items := by
  induction items generalizing reached with
  | nil => simp
  | cons first items ih =>
    rw [List.foldl_cons,ih,mem_insert,List.mem_cons]
    tauto

theorem strict_foldl {items reached : List α} (strict : Strict reached) : Strict (items.foldl insert reached) := by
  induction items generalizing reached with
  | nil => exact strict
  | cons first items ih => exact ih (strict_insert strict first)

@[simp] theorem mem_ordered (items : List α) (item : α) : item ∈ ordered items ↔ item ∈ items := by
  simp [ordered,foldl_insert]

theorem strict_ordered (items : List α) : Strict (ordered items) := strict_foldl List.Pairwise.nil

theorem ordered_congr {left right : List α} (same : ∀ item, item ∈ left ↔ item ∈ right) : ordered left = ordered right := by
  apply strict_ext (strict_ordered left) (strict_ordered right)
  intro item
  rw [mem_ordered,mem_ordered,same]

theorem eq_ordered {items members : List α} (strict : Strict items) (same : ∀ item, item ∈ items ↔ item ∈ members) :
    items = ordered members := by
  apply strict_ext strict (strict_ordered members)
  intro item
  rw [mem_ordered,same]

@[simp] theorem mem_sort (items : List α) (item : α) : item ∈ sort items ↔ item ∈ items :=
  (List.perm_insertionSort (· ≤ ·) items).mem_iff

theorem pairwise_sort (items : List α) : (sort items).Pairwise (· ≤ ·) := List.pairwise_insertionSort (· ≤ ·) items

/-- Behind a kept item, dropping repetitions keeps a strictly increasing list with the same members. -/
theorem destutter_sorted (first : α) (items : List α) (sorted : (first :: items).Pairwise (· ≤ ·)) :
    Strict (items.destutter' (· ≠ ·) first) ∧
      ∀ item, item ∈ items.destutter' (· ≠ ·) first ↔ item = first ∨ item ∈ items := by
  induction items generalizing first with
  | nil => simp [Strict]
  | cons second items ih =>
    obtain ⟨above,rest⟩ := List.pairwise_cons.mp sorted
    by_cases same : first = second
    · subst same
      rw [List.destutter'_cons_neg _ (by simp)]
      obtain ⟨strict,members⟩ := ih first rest
      exact ⟨strict,fun item => by rw [members]; simp⟩
    · rw [List.destutter'_cons_pos _ same]
      obtain ⟨strict,members⟩ := ih second rest
      refine ⟨List.pairwise_cons.mpr ⟨?_,strict⟩,fun item => by rw [List.mem_cons,members,List.mem_cons]⟩
      intro item member
      have below := above second (by simp)
      rcases (members item).mp member with rfl | inside
      · exact lt_of_le_of_ne below same
      · exact lt_of_lt_of_le (lt_of_le_of_ne below same) ((List.pairwise_cons.mp rest).1 item inside)

theorem sort_dedup (items : List α) : dedup (sort items) = ordered items := by
  have sorted := pairwise_sort items
  have members := mem_sort items
  unfold dedup
  cases shape : sort items with
  | nil =>
    apply eq_ordered List.Pairwise.nil
    intro item
    rw [← members,shape]
  | cons first rest =>
    rw [shape] at sorted
    obtain ⟨strict,kept⟩ := destutter_sorted first rest sorted
    apply eq_ordered strict
    intro item
    rw [← members,shape]
    simpa using kept item

theorem sort_ordered {items : List α} (distinct : items.Nodup) : sort items = ordered items := by
  have apart : (sort items).Nodup := (List.perm_insertionSort (· ≤ ·) items).nodup_iff.mpr distinct
  apply eq_ordered
  · exact ((pairwise_sort items).and apart).imp fun both => lt_of_le_of_ne both.1 both.2
  · exact mem_sort items

/-- The window loop of a binary search; the order compares an item with what is sought. -/
def searchWindow {β : Type} (order : β → Ordering) (items : List β) : Nat → Nat → Nat → Option Nat
  | 0,_,_ => none
  | fuel + 1,low,high =>
    if low < high then
      let middle := low + (high - low) / 2
      match items[middle]?.map order with
      | some .lt => searchWindow order items fuel (middle + 1) high
      | some .eq => some middle
      | some .gt => searchWindow order items fuel low middle
      | none => none
    else none

def binarySearchBy {β : Type} (order : β → Ordering) (items : List β) : Option Nat :=
  searchWindow order items items.length 0 items.length

/-- The items before what is sought come first, then those equal to it. -/
def Sought {β : Type} (order : β → Ordering) (items : List β) : Prop :=
  items.Pairwise fun left right => (order right = .lt → order left = .lt) ∧ (order left = .gt → order right = .gt)

theorem searchWindow_sound {β : Type} {order : β → Ordering} {items : List β} {fuel low high index : Nat}
    (found : searchWindow order items fuel low high = some index) : ∃ item, items[index]? = some item ∧ order item = .eq := by
  induction fuel generalizing low high with
  | zero => cases found
  | succ fuel ih =>
    unfold searchWindow at found
    split at found
    · dsimp only at found
      cases here : items[low + (high - low) / 2]? with
      | none =>
        rw [here] at found
        cases found
      | some item =>
        rw [here,Option.map_some] at found
        cases compared : order item with
        | lt =>
          rw [compared] at found
          exact ih found
        | eq =>
          rw [compared] at found
          cases found
          exact ⟨item,here,compared⟩
        | gt =>
          rw [compared] at found
          exact ih found
    · cases found

theorem searchWindow_complete {β : Type} {order : β → Ordering} {items : List β} (sought : Sought order items)
    {fuel low high index : Nat} {item : β} (inside : low ≤ index ∧ index < high) (bounded : high ≤ items.length)
    (enough : high - low ≤ fuel) (here : items[index]? = some item) (equal : order item = .eq) :
    (searchWindow order items fuel low high).isSome := by
  induction fuel generalizing low high with
  | zero => omega
  | succ fuel ih =>
    have window : low < high := by omega
    have middleBound : low + (high - low) / 2 < items.length := by omega
    unfold searchWindow
    rw [if_pos window]
    dsimp only
    rw [List.getElem?_eq_getElem middleBound,Option.map_some]
    obtain ⟨indexBound,same⟩ := List.getElem?_eq_some_iff.mp here
    have pair := List.pairwise_iff_getElem.mp sought
    cases compared : order (items.get ⟨low + (high - low) / 2,middleBound⟩) with
    | lt =>
      rw [List.get_eq_getElem] at compared
      dsimp only
      apply ih _ bounded (by omega)
      refine ⟨?_,inside.2⟩
      by_contra left
      rcases Nat.lt_or_eq_of_le (show index ≤ low + (high - low) / 2 by omega) with before | rfl
      · have contradiction := (pair index _ indexBound middleBound before).1 compared
        rw [same,equal] at contradiction
        cases contradiction
      · rw [same,equal] at compared
        cases compared
    | eq =>
      rw [List.get_eq_getElem] at compared
      simp only [Option.isSome_some]
    | gt =>
      rw [List.get_eq_getElem] at compared
      dsimp only
      apply ih _ (by omega) (by omega)
      refine ⟨inside.1,?_⟩
      by_contra right
      rcases Nat.lt_or_eq_of_le (show low + (high - low) / 2 ≤ index by omega) with behind | rfl
      · have contradiction := (pair _ index middleBound indexBound behind).2 compared
        rw [same,equal] at contradiction
        cases contradiction
      · rw [same,equal] at compared
        cases compared

theorem binarySearchBy_isSome {β : Type} {order : β → Ordering} {items : List β} (sought : Sought order items) :
    (binarySearchBy order items).isSome ↔ ∃ item ∈ items, order item = .eq := by
  constructor
  · intro found
    obtain ⟨index,search⟩ := Option.isSome_iff_exists.mp found
    obtain ⟨item,here,equal⟩ := searchWindow_sound search
    exact ⟨item,List.mem_of_getElem? here,equal⟩
  · rintro ⟨item,member,equal⟩
    obtain ⟨index,bound,here⟩ := List.mem_iff_getElem.mp member
    exact searchWindow_complete sought ⟨by omega,bound⟩ (Nat.le_refl _) (by omega)
      (List.getElem?_eq_some_iff.mpr ⟨bound,here⟩) equal

/-- Binary search for a key (`slice::binary_search`). -/
def binarySearch (items : List α) (key : α) : Option Nat := binarySearchBy (fun item => cmp item key) items

theorem sought_key {items : List α} (sorted : items.Pairwise (· ≤ ·)) (key : α) :
    Sought (fun item => cmp item key) items := by
  apply sorted.imp
  intro left right below
  rw [cmp_eq_lt_iff,cmp_eq_lt_iff,cmp_eq_gt_iff,cmp_eq_gt_iff]
  exact ⟨lt_of_le_of_lt below,fun above => lt_of_lt_of_le above below⟩

theorem binarySearch_mem {items : List α} (sorted : items.Pairwise (· ≤ ·)) (key : α) :
    (binarySearch items key).isSome ↔ key ∈ items := by
  unfold binarySearch
  rw [binarySearchBy_isSome (sought_key sorted key)]
  constructor
  · rintro ⟨item,member,equal⟩
    rw [cmp_eq_eq_iff] at equal
    exact equal ▸ member
  · exact fun member => ⟨key,member,cmp_self_eq_eq key⟩

end Polyguard.Ordered
