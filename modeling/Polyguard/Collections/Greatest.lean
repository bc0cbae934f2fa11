import Mathlib.Data.List.Induction
import Mathlib.Order.Basic
import Mathlib.Order.Defs.LinearOrder
import Mathlib.Order.Lattice

/-! The choice of a greatest item.
Among the items that are able the choice has the greatest rank. A loop that keeps the better
of two finds it, and so does a sort by falling rank; where no two items share a rank there is
one choice, and it depends on the items alone, not on their order. -/
namespace Polyguard.Greatest

section Choice
variable {α κ : Type} [LinearOrder κ] (able : α → Bool) (rank : α → κ)

/-- An able item that no other able item ranks above; nothing where no item is able. -/
def IsChoice (items : List α) : Option α → Prop
  | none => ∀ item ∈ items, ¬ able item
  | some best => best ∈ items ∧ able best ∧ ∀ item ∈ items, able item → rank item ≤ rank best

/-- One round of a loop that keeps the better item. -/
def keep (best : Option α) (item : α) : Option α :=
  if able item then
    match best with
    | none => some item
    | some current => if rank current < rank item then some item else some current
  else best

variable {able rank}

theorem keep_choice {items : List α} {best : Option α} (choice : IsChoice able rank items best) (item : α) :
    IsChoice able rank (items ++ [item]) (keep able rank best item) := by
  have grown : ∀ other ∈ items ++ [item], other ∈ items ∨ other = item := by
    intro other member
    rcases List.mem_append.mp member with early | last
    · exact .inl early
    · exact .inr (List.mem_singleton.mp last)
  have now : item ∈ items ++ [item] := List.mem_append_right _ (List.mem_singleton_self item)
  unfold keep
  by_cases enabled : able item
  · rw [if_pos enabled]
    cases best with
    | none =>
      refine ⟨now,enabled,fun other member allowed => ?_⟩
      rcases grown other member with early | rfl
      · exact absurd allowed (choice other early)
      · exact le_refl _
    | some current =>
      obtain ⟨inside,allowed,greatest⟩ := choice
      dsimp only
      split
      · rename_i above
        refine ⟨now,enabled,fun other member allowed => ?_⟩
        rcases grown other member with early | rfl
        · exact le_of_lt (lt_of_le_of_lt (greatest other early allowed) above)
        · exact le_refl _
      · rename_i below
        refine ⟨List.mem_append_left _ inside,allowed,fun other member allowed => ?_⟩
        rcases grown other member with early | rfl
        · exact greatest other early allowed
        · exact not_lt.mp below
  · rw [if_neg enabled]
    cases best with
    | none =>
      intro other member
      rcases grown other member with early | rfl
      · exact choice other early
      · exact enabled
    | some current =>
      obtain ⟨inside,allowed,greatest⟩ := choice
      refine ⟨List.mem_append_left _ inside,allowed,fun other member allowed => ?_⟩
      rcases grown other member with early | rfl
      · exact greatest other early allowed
      · exact absurd allowed enabled

/-- The loop over the items ends with a choice. -/
theorem fold_choice (items : List α) : IsChoice able rank items (items.foldl (keep able rank) none) := by
  induction items using List.reverseRecOn with
  | nil =>
    intro item member
    cases member
  | append_singleton items item ih =>
    rw [List.foldl_append]
    exact keep_choice ih item

/-- The first item in the falling order of the ranks is a choice. -/
theorem sorted_choice (items : List α) :
    IsChoice able rank items ((items.filter able).mergeSort fun left right => rank right ≤ rank left).head? := by
  have ordered := @List.pairwise_mergeSort α (fun left right => decide (rank right ≤ rank left))
    (fun first second third early late => by
      simp only [decide_eq_true_eq] at early late ⊢
      exact le_trans late early)
    (fun left right => by
      simp only [Bool.or_eq_true,decide_eq_true_eq]
      exact le_total _ _) (items.filter able)
  have members (item : α) : item ∈ (items.filter able).mergeSort (fun left right => rank right ≤ rank left) ↔
      item ∈ items ∧ able item := by
    rw [List.mem_mergeSort,List.mem_filter]
  cases sorted : (items.filter able).mergeSort fun left right => rank right ≤ rank left with
  | nil =>
    intro item member enabled
    have inside := (members item).mpr ⟨member,enabled⟩
    rw [sorted] at inside
    cases inside
  | cons best rest =>
    rw [sorted] at ordered members
    obtain ⟨inside,enabled⟩ := (members best).mp List.mem_cons_self
    refine ⟨inside,enabled,fun item member allowed => ?_⟩
    rcases List.mem_cons.mp ((members item).mpr ⟨member,allowed⟩) with rfl | later
    · exact le_refl _
    · exact decide_eq_true_eq.mp (List.rel_of_pairwise_cons ordered later)

/-- Items of different ranks have one choice. -/
theorem choice_unique {items : List α} (apart : ∀ first ∈ items, ∀ second ∈ items, rank first = rank second → first = second)
    {first second : Option α} (one : IsChoice able rank items first) (other : IsChoice able rank items second) : first = second := by
  cases first with
  | none =>
    cases second with
    | none => rfl
    | some best => exact absurd other.2.1 (one best other.1)
  | some best =>
    cases second with
    | none => exact absurd one.2.1 (other best one.1)
    | some found =>
      obtain ⟨inside,enabled,greatest⟩ := one
      obtain ⟨inside',enabled',greatest'⟩ := other
      exact congrArg some (apart best inside found inside' (le_antisymm (greatest' best inside enabled) (greatest found inside' enabled')))

/-- The choice depends on which items there are, not on their order. -/
theorem choice_congr {items others : List α} (same : ∀ item, item ∈ items ↔ item ∈ others) (best : Option α) :
    IsChoice able rank items best ↔ IsChoice able rank others best := by
  cases best with
  | none => exact forall_congr' fun item => by rw [same]
  | some best =>
    unfold IsChoice
    simp only [same]

end Choice

end Polyguard.Greatest
