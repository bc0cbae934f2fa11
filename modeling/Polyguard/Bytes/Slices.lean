import Mathlib.Data.List.Basic
import Mathlib.Data.List.DropRight
import Mathlib.Tactic.Common

/-! Searching, cutting and trimming of slices.
`position` and `rposition` are the first and last index that meets a predicate;
a slice `xs[a..b]` is `slice xs a b`. The laws say what each search returns on a
list given with its first (or last) hit, so that a scan by offsets and a scan by
pattern can be compared on the same decomposition. -/
namespace Polyguard.Slices

variable {α : Type}

def position (p : α → Bool) (xs : List α) : Option Nat := xs.findIdx? p

def rposition (p : α → Bool) (xs : List α) : Option Nat :=
  (xs.reverse.findIdx? p).map (xs.length - 1 - ·)

/-- The half-open slice `xs[start..stop]`. -/
def slice (xs : List α) (start stop : Nat) : List α := (xs.take stop).drop start

/-- The parts around the first element that equals the separator (`split_once`). -/
def splitOnce [BEq α] (separator : α) (xs : List α) : Option (List α × List α) :=
  (position (· == separator) xs).map fun index => (xs.take index,xs.drop (index + 1))

/-- The parts around the last element that equals the separator (`rsplit_once`). -/
def rsplitOnce [BEq α] (separator : α) (xs : List α) : Option (List α × List α) :=
  (rposition (· == separator) xs).map fun index => (xs.take index,xs.drop (index + 1))

def stripSuffix [BEq α] (suffix : α) (xs : List α) : Option (List α) :=
  if xs.getLast? == some suffix then some xs.dropLast else none

/-- The list without the longest prefix and suffix of elements that meet `p`. -/
def trim (p : α → Bool) (xs : List α) : List α := (xs.dropWhile p).rdropWhile p

theorem position_append {p : α → Bool} {before : List α} {hit : α} (after : List α)
    (miss : ∀ b ∈ before, p b = false) (found : p hit) :
    position p (before ++ hit :: after) = some before.length := by
  induction before with
  | nil => simp [position,List.findIdx?_cons,found]
  | cons x before ih =>
    have head : p x = false := miss x (by simp)
    have tail := ih fun b member => miss b (by simp [member])
    unfold position at tail ⊢
    simp [List.findIdx?_cons,head,tail]

theorem position_none {p : α → Bool} {xs : List α} (miss : ∀ b ∈ xs, p b = false) :
    position p xs = none := by
  simpa [position,List.findIdx?_eq_none_iff] using miss

theorem position_eq_none {p : α → Bool} {xs : List α} :
    position p xs = none ↔ ∀ b ∈ xs, p b = false := by
  simp [position,List.findIdx?_eq_none_iff]

theorem first_hit (p : α → Bool) (xs : List α) :
    (∀ b ∈ xs, p b = false) ∨
      ∃ before hit after, xs = before ++ hit :: after ∧ (∀ b ∈ before, p b = false) ∧ p hit := by
  induction xs with
  | nil => exact .inl (by simp)
  | cons x xs ih =>
    cases decided : p x with
    | true => exact .inr ⟨[],x,xs,rfl,by simp,decided⟩
    | false =>
      rcases ih with none | ⟨before,hit,after,rfl,miss,found⟩
      · exact .inl (by simpa [decided] using none)
      · exact .inr ⟨x :: before,hit,after,rfl,by simpa [decided] using miss,found⟩

theorem position_lt {p : α → Bool} {xs : List α} {index : Nat} (found : position p xs = some index) :
    index < xs.length := by
  rcases first_hit p xs with miss | ⟨before,hit,after,rfl,miss,hits⟩
  · rw [position_none miss] at found
    cases found
  · rw [position_append after miss hits] at found
    cases found
    simp

theorem last_hit (p : α → Bool) (xs : List α) :
    (∀ b ∈ xs, p b = false) ∨
      ∃ before hit after, xs = before ++ hit :: after ∧ (∀ b ∈ after, p b = false) ∧ p hit := by
  rcases first_hit p xs.reverse with none | ⟨before,hit,after,same,miss,found⟩
  · exact .inl (by simpa using none)
  · refine .inr ⟨after.reverse,hit,before.reverse,?_,by simpa using miss,found⟩
    simpa using congrArg List.reverse same

theorem rposition_append {p : α → Bool} {after : List α} {hit : α} (before : List α)
    (miss : ∀ b ∈ after, p b = false) (found : p hit) :
    rposition p (before ++ hit :: after) = some before.length := by
  have reversed : (before ++ hit :: after).reverse = after.reverse ++ hit :: before.reverse := by simp
  have searched : position p (after.reverse ++ hit :: before.reverse) = some after.reverse.length :=
    position_append before.reverse (by simpa using miss) found
  unfold position at searched
  unfold rposition
  rw [reversed,searched]
  simp

theorem rposition_none {p : α → Bool} {xs : List α} (miss : ∀ b ∈ xs, p b = false) :
    rposition p xs = none := by
  simpa [rposition,List.findIdx?_eq_none_iff] using miss

theorem rposition_eq_none {p : α → Bool} {xs : List α} :
    rposition p xs = none ↔ ∀ b ∈ xs, p b = false := by
  simp [rposition,List.findIdx?_eq_none_iff]

@[simp] theorem slice_zero (xs : List α) (stop : Nat) : slice xs 0 stop = xs.take stop := rfl

theorem slice_append (before middle after : List α) :
    slice (before ++ (middle ++ after)) before.length (before.length + middle.length) = middle := by
  unfold slice
  rw [← List.append_assoc,← List.length_append,List.take_left,List.drop_left]

theorem drop_hit (before : List α) (hit : α) (after : List α) :
    (before ++ hit :: after).drop (before.length + 1) = after := by
  rw [← List.drop_drop,List.drop_left,List.drop_one,List.tail_cons]

theorem take_hit (before : List α) (hit : α) (after : List α) :
    (before ++ hit :: after).take before.length = before := List.take_left

theorem drop_second_hit (first : List α) (left : α) (second : List α) (right : α) (after : List α) :
    (first ++ left :: (second ++ right :: after)).drop (first.length + 1 + second.length + 1) = after := by
  rw [Nat.add_assoc (first.length + 1),← List.drop_drop,drop_hit,drop_hit]

theorem slice_between (first : List α) (left : α) (second : List α) (right : α) (after : List α) :
    slice (first ++ left :: (second ++ right :: after)) (first.length + 1)
      (first.length + 1 + second.length) = second := by
  unfold slice
  rw [List.drop_take,drop_hit,Nat.add_sub_cancel_left,take_hit]

theorem takeWhile_append_hit {p : α → Bool} {before : List α} {stop : α} (after : List α)
    (hits : ∀ b ∈ before, p b) (halt : p stop = false) :
    (before ++ stop :: after).takeWhile p = before := by
  induction before with
  | nil => simp [halt]
  | cons x before ih =>
    simp [hits x (by simp),ih fun b member => hits b (by simp [member])]

theorem dropWhile_append_hit {p : α → Bool} {before : List α} {stop : α} (after : List α)
    (hits : ∀ b ∈ before, p b) (halt : p stop = false) :
    (before ++ stop :: after).dropWhile p = stop :: after := by
  induction before with
  | nil => simp [halt]
  | cons x before ih =>
    simp [hits x (by simp),ih fun b member => hits b (by simp [member])]

theorem dropWhile_stop {p : α → Bool} {xs rest : List α} {x : α} (behind : xs.dropWhile p = x :: rest) :
    p x = false := by
  have head := List.head_dropWhile_not p (l := xs) (by simp [behind])
  simpa [behind] using head

theorem position_takeWhile (p : α → Bool) (xs : List α) :
    (position (fun x => !p x) xs).getD xs.length = (xs.takeWhile p).length := by
  rcases first_hit (fun x => !p x) xs with miss | ⟨before,hit,after,rfl,miss,found⟩
  · have all : ∀ x ∈ xs, p x := by simpa using miss
    rw [position_none miss,List.takeWhile_eq_self_iff.mpr all,Option.getD_none]
  · rw [position_append after miss found,takeWhile_append_hit after (by simpa using miss) (by simpa using found),
      Option.getD_some]

theorem take_takeWhile (p : α → Bool) (xs : List α) : xs.take (xs.takeWhile p).length = xs.takeWhile p := by
  have split := congrArg (List.take (xs.takeWhile p).length) (List.takeWhile_append_dropWhile (p := p) (l := xs))
  rw [List.take_left] at split
  exact split.symm

theorem drop_takeWhile (p : α → Bool) (xs : List α) : xs.drop (xs.takeWhile p).length = xs.dropWhile p := by
  have split := congrArg (List.drop (xs.takeWhile p).length) (List.takeWhile_append_dropWhile (p := p) (l := xs))
  rw [List.drop_left] at split
  exact split.symm

/-- A list is either all edge or an edge, a core that starts and ends inside, and an edge. -/
theorem edge_cases (p : α → Bool) (xs : List α) :
    (∀ b ∈ xs, p b) ∨ ∃ leading core trailing, xs = leading ++ (core ++ trailing) ∧
      (∀ b ∈ leading, p b) ∧ (∀ b ∈ trailing, p b) ∧
      (∃ first rest, core = first :: rest ∧ p first = false) ∧
      (∃ init last, core = init ++ [last] ∧ p last = false) := by
  rcases first_hit (fun b => !p b) xs with all | ⟨leading,first,rest,rfl,before,inside⟩
  · exact .inl (by simpa using all)
  · rcases last_hit (fun b => !p b) (first :: rest) with none | ⟨init,last,trailing,same,after,ends⟩
    · simp [none first (by simp)] at inside
    · refine .inr ⟨leading,init ++ [last],trailing,?_,by simpa using before,by simpa using after,?_,
        init,last,rfl,by simpa using ends⟩
      · rw [same]; simp
      · cases init with
        | nil =>
          obtain ⟨rfl,_⟩ := List.cons_eq_cons.mp same
          exact ⟨first,[],rfl,by simpa using inside⟩
        | cons head init =>
          obtain ⟨rfl,_⟩ := List.cons_eq_cons.mp same
          exact ⟨first,init ++ [last],rfl,by simpa using inside⟩

theorem trim_edge {p : α → Bool} {xs : List α} (edge : ∀ b ∈ xs, p b) : trim p xs = [] := by
  simp [trim,List.dropWhile_eq_nil_iff.mpr edge]

theorem trim_core {p : α → Bool} {leading trailing core : List α}
    (before : ∀ b ∈ leading, p b) (after : ∀ b ∈ trailing, p b)
    (starts : ∃ first rest, core = first :: rest ∧ p first = false)
    (ends : ∃ init last, core = init ++ [last] ∧ p last = false) :
    trim p (leading ++ (core ++ trailing)) = core := by
  obtain ⟨first,rest,rfl,inside⟩ := starts
  obtain ⟨init,last,same,closed⟩ := ends
  unfold trim
  rw [List.cons_append,dropWhile_append_hit _ before inside,← List.cons_append,same]
  have reversed : (init ++ [last] ++ trailing).reverse = trailing.reverse ++ last :: init.reverse := by simp
  unfold List.rdropWhile
  rw [reversed,dropWhile_append_hit _ (by simpa using after) closed]
  simp

theorem mem_trim_of_inside {p : α → Bool} {before after : List α} {x : α} (inside : p x = false) :
    x ∈ trim p (before ++ x :: after) := by
  have member : x ∈ (before ++ x :: after).dropWhile p := by
    rw [List.dropWhile_append]
    split <;> simp [inside]
  obtain ⟨front,back,same⟩ := List.append_of_mem member
  unfold trim List.rdropWhile
  rw [same,List.mem_reverse,List.reverse_append,List.reverse_cons,List.append_assoc,List.dropWhile_append]
  split <;> simp [inside]

theorem trim_length_le (p : α → Bool) (xs : List α) : (trim p xs).length ≤ xs.length := by
  unfold trim List.rdropWhile
  have outer := (List.dropWhile_sublist p (l := (xs.dropWhile p).reverse)).length_le
  have inner := (List.dropWhile_sublist p (l := xs)).length_le
  simp only [List.length_reverse] at outer ⊢
  omega

theorem trim_positions (p : α → Bool) (xs : List α) :
    (let start := (position (fun x => !p x) xs).getD xs.length
     slice xs start (((rposition (fun x => !p x) xs).map (· + 1)).getD start)) = trim p xs := by
  rcases edge_cases p xs with edge | ⟨leading,core,trailing,rfl,before,after,starts,ends⟩
  · have outside : ∀ b ∈ xs, (!p b) = false := by simpa using edge
    rw [trim_edge edge,position_none outside,rposition_none outside]
    simp [slice]
  · rw [trim_core before after starts ends]
    obtain ⟨first,rest,rfl,inside⟩ := starts
    obtain ⟨init,last,same,closed⟩ := ends
    have front : position (fun x => !p x) (leading ++ (first :: rest ++ trailing)) = some leading.length :=
      position_append _ (by simpa using before) (by simpa using inside)
    have back : rposition (fun x => !p x) (leading ++ (first :: rest ++ trailing)) =
        some (leading.length + init.length) := by
      rw [same,show leading ++ (init ++ [last] ++ trailing) = (leading ++ init) ++ last :: trailing by simp,
        rposition_append _ (by simpa using after) (by simpa using closed),List.length_append]
    have width : (first :: rest).length = init.length + 1 := by rw [same]; simp
    simp only [front,back,Option.map_some,Option.getD_some]
    rw [Nat.add_assoc,← width,slice_append]

theorem trim_width (p : α → Bool) (xs : List α) :
    (let first := (position (fun x => !p x) xs).getD xs.length
     slice xs first (first +
      ((rposition (fun x => !p x) (xs.drop first)).map (· + 1)).getD 0)) = trim p xs := by
  rcases edge_cases p xs with edge | ⟨leading,core,trailing,rfl,before,after,starts,ends⟩
  · have outside : ∀ b ∈ xs, (!p b) = false := by simpa using edge
    rw [trim_edge edge,position_none outside]
    simp [slice]
  · rw [trim_core before after starts ends]
    obtain ⟨first,rest,rfl,inside⟩ := starts
    obtain ⟨init,last,same,closed⟩ := ends
    have front : position (fun x => !p x) (leading ++ (first :: rest ++ trailing)) = some leading.length :=
      position_append _ (by simpa using before) (by simpa using inside)
    have back : rposition (fun x => !p x) (first :: rest ++ trailing) = some init.length := by
      rw [same,List.append_assoc,List.singleton_append,
        rposition_append _ (by simpa using after) (by simpa using closed)]
    have width : (first :: rest).length = init.length + 1 := by rw [same]; simp
    simp only [front,Option.getD_some,List.drop_left,back,Option.map_some]
    rw [← width,slice_append]

theorem trim_counts (p : α → Bool) (xs : List α) :
    (let leading := (xs.takeWhile p).length
     slice xs leading (xs.length - ((xs.drop leading).reverse.takeWhile p).length)) = trim p xs := by
  rcases edge_cases p xs with edge | ⟨leading,core,trailing,rfl,before,after,starts,ends⟩
  · rw [trim_edge edge,List.takeWhile_eq_self_iff.mpr edge]
    simp [slice]
  · rw [trim_core before after starts ends]
    obtain ⟨first,rest,rfl,inside⟩ := starts
    obtain ⟨init,last,same,closed⟩ := ends
    have front : (leading ++ (first :: rest ++ trailing)).takeWhile p = leading :=
      takeWhile_append_hit _ before inside
    have back : (first :: rest ++ trailing).reverse.takeWhile p = trailing.reverse := by
      rw [same,show (init ++ [last] ++ trailing).reverse = trailing.reverse ++ last :: init.reverse by simp,
        takeWhile_append_hit _ (by simpa using after) closed]
    simp only [front,List.drop_left,back]
    have stop : (leading ++ (first :: rest ++ trailing)).length - trailing.reverse.length =
        leading.length + (first :: rest).length := by
      simp only [List.length_append,List.length_reverse]
      omega
    rw [stop,slice_append]

/-- Trimming by the lengths of the two edges of the whole list, which overlap when it is all edge. -/
theorem trim_saturating (p : α → Bool) (xs : List α) :
    (let leading := (xs.takeWhile p).length
     slice xs leading (leading + (xs.length - (leading + (xs.reverse.takeWhile p).length)))) = trim p xs ∧
    xs.length - ((xs.takeWhile p).length + (xs.reverse.takeWhile p).length) = (trim p xs).length := by
  rcases edge_cases p xs with edge | ⟨leading,core,trailing,rfl,before,after,starts,ends⟩
  · rw [trim_edge edge,List.takeWhile_eq_self_iff.mpr edge]
    simp [slice]
  · rw [trim_core before after starts ends]
    obtain ⟨first,rest,rfl,inside⟩ := starts
    obtain ⟨init,last,same,closed⟩ := ends
    have front : (leading ++ (first :: rest ++ trailing)).takeWhile p = leading :=
      takeWhile_append_hit _ before inside
    have back : (leading ++ (first :: rest ++ trailing)).reverse.takeWhile p = trailing.reverse := by
      rw [same,show (leading ++ (init ++ [last] ++ trailing)).reverse =
        trailing.reverse ++ last :: (init.reverse ++ leading.reverse) by simp,
        takeWhile_append_hit _ (by simpa using after) closed]
    have width : (leading ++ (first :: rest ++ trailing)).length - (leading.length + trailing.reverse.length) =
        (first :: rest).length := by
      simp only [List.length_append,List.length_reverse]
      omega
    simp only [front,back,width]
    exact ⟨slice_append _ _ _,trivial⟩

/-- One step of a scan that remembers the first element outside the edge and the end of the last one. -/
def spanStep (p : α → Bool) (span : Option Nat × Nat) (observed : α × Nat) : Option Nat × Nat :=
  if p observed.1 then span else (span.1.or (some observed.2),observed.2 + 1)

theorem span_edge {p : α → Bool} {xs : List α} (edge : ∀ b ∈ xs, p b) (offset : Nat) (span : Option Nat × Nat) :
    (xs.zipIdx offset).foldl (spanStep p) span = span := by
  induction xs generalizing offset with
  | nil => rfl
  | cons x xs ih =>
    have kept : spanStep p span (x,offset) = span := by simp [spanStep,edge x (by simp)]
    rw [List.zipIdx_cons,List.foldl_cons,kept,ih fun b member => edge b (by simp [member])]

theorem span_first (p : α → Bool) (xs : List α) (offset first stop : Nat) :
    ((xs.zipIdx offset).foldl (spanStep p) (some first,stop)).1 = some first := by
  induction xs generalizing offset stop with
  | nil => rfl
  | cons x xs ih =>
    have step : ∃ stop', spanStep p (some first,stop) (x,offset) = (some first,stop') := by
      cases decided : p x with
      | true => exact ⟨stop,by simp [spanStep,decided]⟩
      | false => exact ⟨offset + 1,by simp [spanStep,decided]⟩
    obtain ⟨stop',stepped⟩ := step
    rw [List.zipIdx_cons,List.foldl_cons,stepped,ih]

theorem span_congr {p q : α → Bool} {xs : List α} (same : ∀ b ∈ xs, p b = q b) (offset : Nat)
    (span : Option Nat × Nat) :
    (xs.zipIdx offset).foldl (spanStep p) span = (xs.zipIdx offset).foldl (spanStep q) span := by
  induction xs generalizing offset span with
  | nil => rfl
  | cons x xs ih =>
    have step : spanStep p span (x,offset) = spanStep q span (x,offset) := by
      simp [spanStep,same x (by simp)]
    rw [List.zipIdx_cons,List.foldl_cons,List.foldl_cons,step,ih fun b member => same b (by simp [member])]

theorem span_trim (p : α → Bool) (xs : List α) (offset stop : Nat) :
    (trim p xs = [] ∧ (xs.zipIdx offset).foldl (spanStep p) (none,stop) = (none,stop)) ∨
    ∃ start, (xs.zipIdx offset).foldl (spanStep p) (none,stop) =
        (some (offset + start),offset + start + (trim p xs).length) ∧
      slice xs start (start + (trim p xs).length) = trim p xs ∧ start + (trim p xs).length ≤ xs.length := by
  rcases edge_cases p xs with edge | ⟨leading,core,trailing,rfl,before,after,starts,ends⟩
  · exact .inl ⟨trim_edge edge,span_edge edge offset _⟩
  · refine .inr ⟨leading.length,?_,?_,?_⟩
    · rw [trim_core before after starts ends,List.zipIdx_append,List.foldl_append,span_edge before,
        List.zipIdx_append,List.foldl_append,span_edge after]
      obtain ⟨first,rest,rfl,inside⟩ := starts
      obtain ⟨init,last,same,closed⟩ := ends
      apply Prod.ext
      · have step : spanStep p (none,stop) (first,offset + leading.length) =
            (some (offset + leading.length),offset + leading.length + 1) := by simp [spanStep,inside]
        rw [List.zipIdx_cons,List.foldl_cons,step,span_first]
      · rw [same,List.zipIdx_append,List.foldl_append]
        simp [spanStep,closed]
        omega
    · rw [trim_core before after starts ends,slice_append]
    · rw [trim_core before after starts ends]
      simp only [List.length_append]
      omega

/-- The bounds read from a span, with `stop` for a list that is all edge, cut out the trimmed list. -/
theorem span_bounds (p : α → Bool) (xs : List α) (offset fresh : Nat) :
    ∃ start,
      ((xs.zipIdx offset).foldl (spanStep p) (none,fresh)).1.getD (offset + xs.length) = offset + start ∧
      (((xs.zipIdx offset).foldl (spanStep p) (none,fresh)).1.map fun _ =>
        ((xs.zipIdx offset).foldl (spanStep p) (none,fresh)).2).getD (offset + xs.length) =
          offset + (start + (trim p xs).length) ∧
      slice xs start (start + (trim p xs).length) = trim p xs ∧ start + (trim p xs).length ≤ xs.length := by
  rcases span_trim p xs offset fresh with ⟨empty,folded⟩ | ⟨start,folded,cut,inside⟩
  · refine ⟨xs.length,?_⟩
    simp [folded,empty,slice]
  · refine ⟨start,?_⟩
    simp [folded,cut,inside]
    omega

theorem slice_within {xs line tail : List α} {offset : Nat} (located : xs.drop offset = line ++ tail)
    (start stop : Nat) (inside : stop ≤ line.length) :
    slice xs (offset + start) (offset + stop) = slice line start stop := by
  unfold slice
  rw [List.drop_take,List.drop_take,← List.drop_drop,located,Nat.add_sub_add_left]
  by_cases ordered : start ≤ stop
  · rw [List.drop_append_of_le_length (by omega),List.take_append_of_le_length (by simp; omega)]
  · rw [show stop - start = 0 by omega,List.take_zero,List.take_zero]

theorem splitOn_position [BEq α] [LawfulBEq α] (separator : α) (xs : List α) :
    xs.splitOn separator = match position (· == separator) xs with
      | none => [xs]
      | some index => xs.take index :: (xs.drop (index + 1)).splitOn separator := by
  rcases first_hit (· == separator) xs with miss | ⟨before,hit,after,rfl,miss,found⟩
  · have absent : separator ∉ xs := fun member => by simpa using miss separator member
    rw [position_none miss,List.splitOn_eq_singleton absent]
  · obtain rfl : hit = separator := by simpa using found
    have absent : hit ∉ before := fun member => by simpa using miss hit member
    rw [position_append after miss found]
    simp only [take_hit,drop_hit]
    exact List.splitOn_append_cons_self_of_not_mem absent after

theorem splitOn_of_mem [BEq α] [LawfulBEq α] {separator : α} {xs : List α} (member : separator ∈ xs) :
    ∃ first second rest, xs.splitOn separator = first :: second :: rest := by
  have found : position (· == separator) xs ≠ none := by
    rw [Ne,position_eq_none]
    intro miss
    simpa using miss separator member
  obtain ⟨index,located⟩ := Option.ne_none_iff_exists'.mp found
  obtain ⟨second,rest,tail⟩ := List.exists_cons_of_ne_nil
    (List.splitOn_ne_nil separator (xs.drop (index + 1)))
  refine ⟨xs.take index,second,rest,?_⟩
  rw [splitOn_position,located]
  simp only [tail]

theorem splitOn_prepend [BEq α] [LawfulBEq α] {separator : α} {front : List α} (absent : separator ∉ front)
    (back : List α) : (front ++ back).splitOn separator = (back.splitOn separator).modifyHead (front ++ ·) := by
  induction front with
  | nil =>
    rw [List.nil_append]
    cases back.splitOn separator <;> rfl
  | cons x front ih =>
    have head : (x == separator) = false := by
      rw [beq_eq_false_iff_ne]
      rintro rfl
      simp at absent
    have tail := ih fun member => absent (by simp [member])
    rw [List.cons_append,List.splitOn_cons_eq_if_modifyHead,head,tail]
    simp [List.modifyHead_modifyHead,Function.comp_def]

/-- Two texts side by side: the last part of the front and the first one of the back become one. -/
theorem splitOn_append [BEq α] (separator : α) (front back : List α) : (front ++ back).splitOn separator =
    (front.splitOn separator).dropLast ++
      ((front.splitOn separator).getLastD [] ++ (back.splitOn separator).headD []) :: (back.splitOn separator).tail := by
  induction front with
  | nil =>
    obtain ⟨head,tail,split⟩ := List.exists_cons_of_ne_nil (List.splitOn_ne_nil separator back)
    rw [List.nil_append,split]
    rfl
  | cons x front ih =>
    rw [List.cons_append,List.splitOn_cons_eq_if_modifyHead,List.splitOn_cons_eq_if_modifyHead,ih]
    obtain ⟨part,parts,split⟩ := List.exists_cons_of_ne_nil (List.splitOn_ne_nil separator front)
    rw [split]
    by_cases same : (x == separator) = true
    · rw [if_pos same,if_pos same]
      rfl
    · rw [if_neg same,if_neg same]
      cases parts <;> rfl

theorem splitOn_mem [BEq α] [LawfulBEq α] (separator : α) {b : α} {text : List α} (member : b ∈ text) :
    b = separator ∨ ∃ part ∈ text.splitOn separator, b ∈ part := by
  induction text with
  | nil => simp at member
  | cons first text ih =>
    obtain ⟨head,tail,split⟩ := List.exists_cons_of_ne_nil (List.splitOn_ne_nil separator text)
    rw [List.splitOn_cons_eq_if_modifyHead]
    rcases List.mem_cons.mp member with rfl | inside
    · by_cases same : b = separator
      · exact .inl same
      · exact .inr (by simp [same,split])
    · rcases ih inside with same | ⟨part,among,within⟩
      · exact .inl same
      · refine .inr ?_
        by_cases same : first = separator
        · exact ⟨part,by simp [same,among],within⟩
        · rw [split] at among ⊢
          rcases List.mem_cons.mp among with rfl | later
          · exact ⟨first :: part,by simp [same],by simp [within]⟩
          · exact ⟨part,by simp [same,later],within⟩

theorem mem_of_mem_splitOn [BEq α] [LawfulBEq α] {separator b : α} {part text : List α}
    (among : part ∈ text.splitOn separator) (member : b ∈ part) : b ∈ text := by
  induction text generalizing part with
  | nil =>
    rw [List.splitOn_nil,List.mem_singleton] at among
    subst among
    exact member
  | cons first text ih =>
    obtain ⟨head,tail,split⟩ := List.exists_cons_of_ne_nil (List.splitOn_ne_nil separator text)
    rw [List.splitOn_cons_eq_if_modifyHead] at among
    split at among
    · rcases List.mem_cons.mp among with rfl | later
      · simp at member
      · exact List.mem_cons_of_mem first (ih later member)
    · rw [split,List.modifyHead_cons] at among
      rcases List.mem_cons.mp among with rfl | later
      · rcases List.mem_cons.mp member with rfl | inside
        · exact List.mem_cons_self
        · exact List.mem_cons_of_mem first (ih (by simp [split]) inside)
      · exact List.mem_cons_of_mem first (ih (by simp [split,later]) member)

theorem separator_free [BEq α] [LawfulBEq α] {separator : α} {part text : List α} (among : part ∈ text.splitOn separator) :
    separator ∉ part := by
  induction text generalizing part with
  | nil =>
    rw [List.splitOn_nil,List.mem_singleton] at among
    subst among
    exact List.not_mem_nil
  | cons first text ih =>
    obtain ⟨head,tail,split⟩ := List.exists_cons_of_ne_nil (List.splitOn_ne_nil separator text)
    rw [List.splitOn_cons_eq_if_modifyHead] at among
    split at among
    · rcases List.mem_cons.mp among with rfl | later
      · exact List.not_mem_nil
      · exact ih later
    · rename_i other
      rw [split,List.modifyHead_cons] at among
      rcases List.mem_cons.mp among with rfl | later
      · rw [List.mem_cons,not_or]
        exact ⟨fun same => other (beq_iff_eq.mpr same.symm),ih (by simp [split])⟩
      · exact ih (by simp [split,later])

theorem splitOn_map [BEq α] [LawfulBEq α] {separator : α} {f : α → α} (apart : ∀ b, f b = separator ↔ b = separator)
    (text : List α) : (text.map f).splitOn separator = (text.splitOn separator).map (List.map f) := by
  induction text with
  | nil => rfl
  | cons first text ih =>
    obtain ⟨head,tail,split⟩ := List.exists_cons_of_ne_nil (List.splitOn_ne_nil separator text)
    rw [List.map_cons,List.splitOn_cons_eq_if_modifyHead,List.splitOn_cons_eq_if_modifyHead,ih,split]
    by_cases same : first = separator
    · rw [if_pos (beq_iff_eq.mpr ((apart first).mpr same)),if_pos (beq_iff_eq.mpr same)]
      rfl
    · rw [if_neg (by rw [beq_iff_eq,apart]; exact same),if_neg (by rw [beq_iff_eq]; exact same)]
      rfl

theorem miss_of_absent [BEq α] [LawfulBEq α] {separator : α} {text : List α} (absent : separator ∉ text) :
    ∀ b ∈ text, (b == separator) = false := by
  intro b member
  rw [beq_eq_false_iff_ne]
  rintro rfl
  exact absent member

theorem splitOnce_absent [BEq α] [LawfulBEq α] {separator : α} {text : List α} (absent : separator ∉ text) :
    splitOnce separator text = none ∧ rsplitOnce separator text = none := by
  simp [splitOnce,rsplitOnce,position_none (miss_of_absent absent),rposition_none (miss_of_absent absent)]

theorem splitOnce_first [BEq α] [LawfulBEq α] {separator : α} {front : List α} (absent : separator ∉ front) (back : List α) :
    splitOnce separator (front ++ separator :: back) = some (front,back) := by
  simp [splitOnce,position_append back (miss_of_absent absent) (beq_self_eq_true separator),drop_hit]

theorem rsplitOnce_last [BEq α] [LawfulBEq α] {separator : α} {back : List α} (absent : separator ∉ back) (front : List α) :
    rsplitOnce separator (front ++ separator :: back) = some (front,back) := by
  simp [rsplitOnce,rposition_append front (miss_of_absent absent) (beq_self_eq_true separator),drop_hit]

theorem exists_snoc {xs : List α} (some : xs ≠ []) : ∃ init last, xs = init ++ [last] :=
  ⟨_,_,(List.dropLast_append_getLast some).symm⟩

end Polyguard.Slices
