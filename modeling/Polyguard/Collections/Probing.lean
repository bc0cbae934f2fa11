import Mathlib.Data.List.Perm.Subperm
import Mathlib.Tactic.Common

/-! Linear probing on a ring of slots.
A search starts at the home slot of a value and walks the ring until it meets the
value or a free slot. A table holds a list of members when every member stands
behind an unbroken row of taken slots from its home, in one slot only. -/
namespace Polyguard.Probing

variable {α : Type} [DecidableEq α]

inductive Outcome where
  | free (slot : Nat)
  | found
  | full
deriving DecidableEq

/-- The search with the rounds it has left. -/
def search (size : Nat) (slots : Nat → Option α) (value : α) : Nat → Nat → Outcome
  | 0,_ => .full
  | rounds + 1,slot =>
    match slots slot with
    | none => .free slot
    | some held => if held = value then .found else search size slots value rounds ((slot + 1) % size)

structure Holds (size : Nat) (home : α → Nat) (slots : Nat → Option α) (members : List α) : Prop where
  sound : ∀ slot < size, ∀ value, slots slot = some value → value ∈ members
  complete : ∀ value ∈ members, ∃ distance < size, slots ((home value + distance) % size) = some value ∧
    ∀ nearer < distance, (slots ((home value + nearer) % size)).isSome
  single : ∀ left < size, ∀ right < size, ∀ value, slots left = some value → slots right = some value → left = right

theorem search_reaches {size : Nat} {slots : Nat → Option α} {value : α} {distance : Nat} :
    ∀ {start rounds : Nat}, distance < rounds →
      (∀ nearer < distance, (slots ((start + nearer) % size)).isSome) →
      slots ((start + distance) % size) = some value →
      search size slots value rounds (start % size) = .found := by
  induction distance with
  | zero =>
    intro start rounds room _ here
    obtain ⟨left,rfl⟩ : ∃ left, rounds = left + 1 := ⟨rounds - 1,by omega⟩
    rw [Nat.add_zero] at here
    simp [search,here]
  | succ distance ih =>
    intro start rounds room row here
    obtain ⟨left,rfl⟩ : ∃ left, rounds = left + 1 := ⟨rounds - 1,by omega⟩
    obtain ⟨held,taken⟩ := Option.isSome_iff_exists.mp (row 0 (by omega))
    rw [Nat.add_zero] at taken
    have shift : ∀ further, start + 1 + further = start + (further + 1) := fun further => by omega
    have rest : search size slots value left ((start + 1) % size) = .found := by
      apply ih (by omega)
      · intro nearer inside
        rw [shift]
        exact row (nearer + 1) (by omega)
      · rw [shift]
        exact here
    simp only [search,taken,Nat.mod_add_mod,rest,ite_self]

theorem search_member {size : Nat} {home : α → Nat} {slots : Nat → Option α} {members : List α}
    (holds : Holds size home slots members) {value : α} (member : value ∈ members) :
    search size slots value size (home value % size) = .found := by
  obtain ⟨distance,inside,here,row⟩ := holds.complete value member
  exact search_reaches inside row here

theorem search_absent {size : Nat} {slots : Nat → Option α} {value : α} (positive : 0 < size)
    (absent : ∀ slot < size, slots slot ≠ some value) (rounds : Nat) : ∀ start : Nat,
    (∃ distance < rounds, search size slots value rounds (start % size) = .free ((start + distance) % size) ∧
      slots ((start + distance) % size) = none ∧ ∀ nearer < distance, (slots ((start + nearer) % size)).isSome) ∨
    (search size slots value rounds (start % size) = .full ∧
      ∀ nearer < rounds, (slots ((start + nearer) % size)).isSome) := by
  induction rounds with
  | zero =>
    intro start
    exact .inr ⟨rfl,fun nearer inside => absurd inside (Nat.not_lt_zero nearer)⟩
  | succ rounds ih =>
    intro start
    cases here : slots (start % size) with
    | none => exact .inl ⟨0,by omega,by simp [search,here],by simpa using here,fun nearer inside => absurd inside (Nat.not_lt_zero nearer)⟩
    | some held =>
      have other : held ≠ value := by
        rintro rfl
        exact absent (start % size) (Nat.mod_lt start positive) here
      have walk : search size slots value (rounds + 1) (start % size) =
          search size slots value rounds ((start + 1) % size) := by
        simp only [search,here,other,if_false,Nat.mod_add_mod]
      have shift : ∀ further, start + 1 + further = start + (further + 1) := fun further => by omega
      have row {distance : Nat} (behind : ∀ nearer < distance, (slots ((start + 1 + nearer) % size)).isSome) :
          ∀ nearer < distance + 1, (slots ((start + nearer) % size)).isSome := by
        intro nearer inside
        cases nearer with
        | zero => simp [here]
        | succ nearer =>
          rw [← shift]
          exact behind nearer (by omega)
      rw [walk]
      rcases ih (start + 1) with ⟨distance,inside,stopped,free,behind⟩ | ⟨stopped,behind⟩
      · exact .inl ⟨distance + 1,by omega,by rw [stopped,shift],by rw [← shift]; exact free,row behind⟩
      · exact .inr ⟨stopped,row behind⟩

omit [DecidableEq α] in
theorem Holds.insert {size : Nat} {home : α → Nat} {slots : Nat → Option α} {members : List α}
    (holds : Holds size home slots members) {value : α} {distance : Nat} (inside : distance < size)
    (fresh : value ∉ members) (free : slots ((home value + distance) % size) = none)
    (row : ∀ nearer < distance, (slots ((home value + nearer) % size)).isSome) {next : Nat → Option α}
    (taken : next ((home value + distance) % size) = some value)
    (kept : ∀ slot < size, slot ≠ (home value + distance) % size → next slot = slots slot) :
    Holds size home next (value :: members) := by
  have positive : 0 < size := by omega
  have grows : ∀ slot < size, (slots slot).isSome → next slot = slots slot := by
    intro slot within occupied
    apply kept slot within
    rintro rfl
    simp [free] at occupied
  refine ⟨?_,?_,?_⟩
  · intro slot within held stored
    by_cases same : slot = (home value + distance) % size
    · rw [same,taken] at stored
      cases stored
      exact List.mem_cons_self
    · rw [kept slot within same] at stored
      exact List.mem_cons_of_mem _ (holds.sound slot within held stored)
  · intro held member
    rcases List.mem_cons.mp member with rfl | old
    · refine ⟨distance,inside,taken,fun nearer closer => ?_⟩
      rw [grows _ (Nat.mod_lt _ positive) (row nearer closer)]
      exact row nearer closer
    · obtain ⟨far,within,stored,before⟩ := holds.complete held old
      refine ⟨far,within,?_,fun nearer closer => ?_⟩
      · rw [grows _ (Nat.mod_lt _ positive) (by simp [stored])]
        exact stored
      · rw [grows _ (Nat.mod_lt _ positive) (before nearer closer)]
        exact before nearer closer
  · have moved : ∀ slot < size, ∀ held, next slot = some held →
        (slot = (home value + distance) % size ∧ held = value) ∨ (slots slot = some held ∧ held ≠ value) := by
      intro slot within held stored
      by_cases same : slot = (home value + distance) % size
      · rw [same,taken] at stored
        cases stored
        exact .inl ⟨same,rfl⟩
      · rw [kept slot within same] at stored
        refine .inr ⟨stored,?_⟩
        rintro rfl
        exact fresh (holds.sound slot within held stored)
    intro left leftIn right rightIn held storedLeft storedRight
    rcases moved left leftIn held storedLeft with ⟨atLeft,ours⟩ | ⟨oldLeft,foreign⟩
    · rcases moved right rightIn held storedRight with ⟨atRight,-⟩ | ⟨-,foreign⟩
      · rw [atLeft,atRight]
      · exact absurd ours foreign
    · rcases moved right rightIn held storedRight with ⟨-,ours⟩ | ⟨oldRight,-⟩
      · exact absurd ours foreign
      · exact holds.single left leftIn right rightIn held oldLeft oldRight

omit [DecidableEq α] in
theorem Holds.full {size : Nat} {home : α → Nat} {slots : Nat → Option α} {members : List α}
    (holds : Holds size home slots members) {start : Nat}
    (row : ∀ nearer < size, (slots ((start + nearer) % size)).isSome) : size ≤ members.length := by
  have occupied : ∀ slot < size, (slots slot).isSome := by
    intro slot within
    have positive : 0 < size := by omega
    have reduced := Nat.mod_lt start positive
    have reached : (start + (slot + (size - start % size)) % size) % size = slot := by
      rw [Nat.add_mod_mod,← Nat.mod_add_mod,show start % size + (slot + (size - start % size)) = slot + size by omega,
        Nat.add_mod_right,Nat.mod_eq_of_lt within]
    rw [← reached]
    exact row _ (Nat.mod_lt _ positive)
  have count : ((List.range size).filterMap slots).length = size := by
    rw [List.length_filterMap_eq_countP,List.countP_eq_length.mpr,List.length_range]
    intro slot member
    exact occupied slot (List.mem_range.mp member)
  have distinct : ((List.range size).filterMap slots).Nodup := by
    rw [List.Nodup,List.pairwise_filterMap]
    refine List.Pairwise.imp_of_mem ?_ (List.nodup_range (n := size))
    intro left right leftIn rightIn differ held storedLeft other storedRight same
    subst same
    exact differ (holds.single left (List.mem_range.mp leftIn) right (List.mem_range.mp rightIn) held storedLeft storedRight)
  have inside : (List.range size).filterMap slots ⊆ members := by
    intro value member
    obtain ⟨slot,among,stored⟩ := List.mem_filterMap.mp member
    exact holds.sound slot (List.mem_range.mp among) value stored
  calc size = ((List.range size).filterMap slots).length := count.symm
    _ ≤ members.length := (distinct.subperm inside).length_le

omit [DecidableEq α] in
theorem holds_empty {size : Nat} (home : α → Nat) {slots : Nat → Option α} (free : ∀ slot < size, slots slot = none) :
    Holds size home slots [] := by
  refine ⟨?_,by simp,?_⟩
  · intro slot within value stored
    rw [free slot within] at stored
    cases stored
  · intro left leftIn right _ value stored
    rw [free left leftIn] at stored
    cases stored

end Polyguard.Probing
