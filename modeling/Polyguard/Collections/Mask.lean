import Mathlib.Data.List.Basic

/-! Positions of a list that are marked in a bit vector.
A pass over a list with its positions sets the bit of each element that it keeps, and a
later pass acts where the bit is set. The second pass is one over the elements that the
first one kept, in either direction. -/
namespace Polyguard.Mask
variable {α S : Type} {width : Nat}

/-- The mask behind one element: its bit is set when it is kept. -/
def mark (keep : α → Bool) (mask : BitVec width) (entry : α × Nat) : BitVec width :=
  if keep entry.1 then mask ||| (BitVec.ofNat width 1 <<< entry.2) else mask

def isMarked (mask : BitVec width) (index : Nat) : Bool := mask &&& (BitVec.ofNat width 1 <<< index) != 0

theorem bit_getLsbD {index : Nat} (within : index < width) (other : Nat) :
    (BitVec.ofNat width 1 <<< index).getLsbD other = decide (other = index) := by
  rw [BitVec.getLsbD_shiftLeft,BitVec.getLsbD_one]
  by_cases same : other = index
  · subst same
    simp [within]
    omega
  · simp [same]
    omega

theorem isMarked_getLsbD (mask : BitVec width) {index : Nat} (within : index < width) :
    isMarked mask index = mask.getLsbD index := by
  unfold isMarked
  cases bit : mask.getLsbD index with
  | true =>
    apply bne_iff_ne.mpr
    intro empty
    have cleared : (mask &&& (BitVec.ofNat width 1 <<< index)).getLsbD index = false := by rw [empty]; simp
    rw [BitVec.getLsbD_and,bit,bit_getLsbD within] at cleared
    simp at cleared
  | false =>
    apply bne_eq_false_iff_eq.mpr
    apply BitVec.eq_of_getLsbD_eq
    intro other inside
    rw [BitVec.getLsbD_and,bit_getLsbD within]
    by_cases same : other = index
    · subst same
      simp [bit]
    · simp [same]

/-- The bits behind a pass: those that were set and those of the elements that it keeps. -/
theorem marks_getLsbD (keep : α → Bool) (xs : List α) (start : Nat) (mask : BitVec width) (fits : start + xs.length ≤ width)
    (index : Nat) : ((xs.zipIdx start).foldl (mark keep) mask).getLsbD index =
      (mask.getLsbD index || (decide (start ≤ index) && xs[index - start]?.any keep)) := by
  induction xs generalizing start mask with
  | nil => simp
  | cons x xs ih =>
    rw [List.length_cons] at fits
    rw [List.zipIdx_cons,List.foldl_cons,ih (start + 1) _ (by omega)]
    have here : (mark keep mask (x,start)).getLsbD index = (mask.getLsbD index || (decide (index = start) && keep x)) := by
      unfold mark
      cases kept : keep x with
      | false => simp
      | true => simp [bit_getLsbD (show start < width by omega)]
    rw [here]
    rcases Nat.lt_trichotomy index start with before | same | behind
    · have early : ¬ start ≤ index := by omega
      have earlier : ¬ start + 1 ≤ index := by omega
      simp [early,earlier,show index ≠ start by omega]
    · subst same
      simp [show ¬ index + 1 ≤ index by omega]
    · have later : start + 1 ≤ index := by omega
      have shift : index - start = index - (start + 1) + 1 := by omega
      simp [later,show start ≤ index by omega,show index ≠ start by omega,shift]

/-- The mask of a whole list tells the kept elements from the others. -/
theorem marked_entries (keep : α → Bool) {xs : List α} (fits : xs.length ≤ width) :
    ∀ entry ∈ xs.zipIdx, isMarked (xs.zipIdx.foldl (mark keep) (0 : BitVec width)) entry.2 = keep entry.1 := by
  intro entry member
  have found : xs[entry.2]? = some entry.1 := List.mk_mem_zipIdx_iff_getElem?.mp member
  obtain ⟨inside,-⟩ := List.getElem?_eq_some_iff.mp found
  rw [isMarked_getLsbD _ (by omega),marks_getLsbD keep xs 0 0 (by omega)]
  simp [found]

/-- A pass that acts at the marked positions acts on the kept elements. -/
theorem marked_fold {keep : α → Bool} {chosen : Nat → Bool} {entries : List (α × Nat)}
    (same : ∀ entry ∈ entries, chosen entry.2 = keep entry.1) (step : S → α → S) (state : S) :
    entries.foldl (fun state (x,index) => if chosen index then step state x else state) state =
      ((entries.map Prod.fst).filter keep).foldl step state := by
  induction entries generalizing state with
  | nil => rfl
  | cons entry entries ih =>
    have here := same entry List.mem_cons_self
    have later := ih fun other member => same other (List.mem_cons_of_mem _ member)
    rw [List.foldl_cons,later,List.map_cons,List.filter_cons]
    dsimp only
    rw [here]
    cases keep entry.1 <;> rfl

end Polyguard.Mask
