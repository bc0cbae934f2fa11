import Mathlib.Tactic.Common

/-! Keyed accounts with a weighted total.
An account is found, replaced and closed under its key. The total changes by exactly
the account that an operation touches, and never falls below the accounts it covers. -/
namespace Polyguard.Ledger

variable {Key Value : Type} [DecidableEq Key]

def find (key : Key) : List (Key × Value) → Option Value
  | [] => none
  | (held,value) :: rest => if held = key then some value else find key rest

/-- Replaces the account under a key; an absent key changes nothing. -/
def replace (key : Key) (value : Value) : List (Key × Value) → List (Key × Value)
  | [] => []
  | (held,old) :: rest => if held = key then (held,value) :: rest else (held,old) :: replace key value rest

def close (key : Key) : List (Key × Value) → List (Key × Value)
  | [] => []
  | (held,old) :: rest => if held = key then rest else (held,old) :: close key rest

def total (weight : Value → Nat) : List (Key × Value) → Nat
  | [] => 0
  | (_,value) :: rest => weight value + total weight rest

variable {key other : Key} {value old : Value} {accounts : List (Key × Value)} {weight : Value → Nat}

theorem find_open (differs : other ≠ key) : find other ((key,value) :: accounts) = find other accounts := by
  rw [find,if_neg (Ne.symm differs)]

theorem find_opened : find key ((key,value) :: accounts) = some value := by rw [find,if_pos rfl]

theorem find_replace_other (differs : other ≠ key) : find other (replace key value accounts) = find other accounts := by
  induction accounts with
  | nil => rfl
  | cons account rest ih =>
    obtain ⟨held,_⟩ := account
    simp only [replace]
    split
    · rename_i same
      rw [same,find_open differs,find_open differs]
    · simp only [find,ih]

theorem find_replace (found : find key accounts = some old) : find key (replace key value accounts) = some value := by
  induction accounts with
  | nil => cases found
  | cons account rest ih =>
    obtain ⟨held,_⟩ := account
    simp only [find] at found
    simp only [replace]
    split
    · rename_i same
      rw [find,if_pos same]
    · rename_i differs
      rw [if_neg differs] at found
      rw [find,if_neg differs,ih found]

theorem find_close_other (differs : other ≠ key) : find other (close key accounts) = find other accounts := by
  induction accounts with
  | nil => rfl
  | cons account rest ih =>
    obtain ⟨held,_⟩ := account
    simp only [close]
    split
    · rename_i same
      rw [same,find_open differs]
    · simp only [find,ih]

theorem total_replace (weight : Value → Nat) (value : Value) (found : find key accounts = some old) :
    total weight (replace key value accounts) + weight old = total weight accounts + weight value := by
  induction accounts with
  | nil => cases found
  | cons account rest ih =>
    obtain ⟨held,current⟩ := account
    simp only [find] at found
    simp only [replace]
    split
    · rename_i same
      rw [if_pos same] at found
      cases found
      simp only [total]
      omega
    · rename_i differs
      rw [if_neg differs] at found
      have inner := ih found
      simp only [total]
      omega

theorem total_close (weight : Value → Nat) (found : find key accounts = some old) :
    total weight (close key accounts) + weight old = total weight accounts := by
  induction accounts with
  | nil => cases found
  | cons account rest ih =>
    obtain ⟨held,current⟩ := account
    simp only [find] at found
    simp only [close]
    split
    · rename_i same
      rw [if_pos same] at found
      cases found
      simp only [total]
      omega
    · rename_i differs
      rw [if_neg differs] at found
      have inner := ih found
      simp only [total]
      omega

theorem weight_le_total (weight : Value → Nat) (found : find key accounts = some old) :
    weight old ≤ total weight accounts := by
  have split := total_close weight found
  omega

theorem keys_replace : (replace key value accounts).map Prod.fst = accounts.map Prod.fst := by
  induction accounts with
  | nil => rfl
  | cons account rest ih =>
    obtain ⟨held,_⟩ := account
    simp only [replace]
    split
    · rfl
    · rw [List.map_cons,List.map_cons,ih]

theorem find_mem (found : find key accounts = some value) : (key,value) ∈ accounts := by
  induction accounts with
  | nil => cases found
  | cons account rest ih =>
    obtain ⟨held,old⟩ := account
    rw [find] at found
    split at found
    · rename_i same
      cases found
      subst same
      exact List.mem_cons_self
    · exact List.mem_cons_of_mem _ (ih found)

theorem find_iff_mem (distinct : (accounts.map Prod.fst).Nodup) : find key accounts = some value ↔ (key,value) ∈ accounts := by
  refine ⟨find_mem,?_⟩
  induction accounts with
  | nil => exact fun member => absurd member List.not_mem_nil
  | cons account rest ih =>
    obtain ⟨held,old⟩ := account
    intro member
    rw [List.map_cons,List.nodup_cons] at distinct
    rcases List.mem_cons.mp member with same | later
    · cases same
      exact find_opened
    · have differs : key ≠ held := by
        rintro rfl
        exact distinct.1 (List.mem_map.mpr ⟨_,later,rfl⟩)
      rw [find_open differs]
      exact ih distinct.2 later

theorem find_none (absent : find key accounts = none) : key ∉ accounts.map Prod.fst := by
  induction accounts with
  | nil => exact List.not_mem_nil
  | cons account rest ih =>
    obtain ⟨held,old⟩ := account
    rw [find] at absent
    split at absent
    · cases absent
    · rename_i differs
      rw [List.map_cons,List.mem_cons,not_or]
      exact ⟨Ne.symm differs,ih absent⟩

theorem find_map {Other : Type} (change : Value → Other) :
    find key (accounts.map fun account => (account.1,change account.2)) = (find key accounts).map change := by
  induction accounts with
  | nil => rfl
  | cons account rest ih =>
    obtain ⟨held,old⟩ := account
    rw [List.map_cons,find,find]
    split
    · rfl
    · exact ih

theorem find_put (other : Key) : find other (if (find key accounts).isSome then replace key value accounts else (key,value) :: accounts) =
    if other = key then some value else find other accounts := by
  by_cases same : other = key
  · subst same
    rw [if_pos rfl]
    split
    · rename_i held
      obtain ⟨old,found⟩ := Option.isSome_iff_exists.mp held
      exact find_replace found
    · exact find_opened
  · rw [if_neg same]
    split
    · exact find_replace_other same
    · exact find_open same

end Polyguard.Ledger
