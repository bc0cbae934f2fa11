import Polyguard.Bytes.Ascii

/-! The removal of dot segments from a path (RFC 3986, section 5.2.4), as the loop over an
input and an output buffer that the section describes, and what it does on a list of
segments that stand each behind a slash. -/
namespace Polyguard.DotSegments
open Ascii

/-- The output without its last segment and the slash before it. -/
def dropSegment (output : List UInt8) : List UInt8 := (output.reverse.dropWhile (· != 0x2f)).tail.reverse

/-- The first segment of the input with its initial slash, if any, and what follows it. -/
def splitSegment : List UInt8 → List UInt8 × List UInt8
  | [] => ([],[])
  | byte :: rest => (byte :: rest.takeWhile (· != 0x2f),rest.dropWhile (· != 0x2f))

/-- The steps A to E of the loop. -/
def removeDots (output : List UInt8) : List UInt8 → List UInt8
  | [] => output
  | 0x2e :: 0x2e :: 0x2f :: rest => removeDots output rest
  | 0x2e :: 0x2f :: rest => removeDots output rest
  | 0x2f :: 0x2e :: 0x2f :: rest => removeDots output (0x2f :: rest)
  | [0x2f,0x2e] => removeDots output [0x2f]
  | 0x2f :: 0x2e :: 0x2e :: 0x2f :: rest => removeDots (dropSegment output) (0x2f :: rest)
  | [0x2f,0x2e,0x2e] => removeDots (dropSegment output) [0x2f]
  | [0x2e] => output
  | [0x2e,0x2e] => output
  | byte :: rest => removeDots (output ++ (splitSegment (byte :: rest)).1) (splitSegment (byte :: rest)).2
termination_by input => input.length
decreasing_by
  all_goals simp only [List.length_cons,List.length_nil]
  all_goals try omega
  have := (List.dropWhile_suffix (l := rest) (· != 0x2f)).length_le
  simp only [splitSegment]
  omega

def removeDotSegments (path : List UInt8) : List UInt8 := removeDots [] path

/-- Every segment behind a slash. -/
def joined (segments : List (List UInt8)) : List UInt8 := segments.flatMap (0x2f :: ·)

def isDots (segment : List UInt8) : Bool := segment == [0x2e] || segment == [0x2e,0x2e]

/-- The open segments behind one more segment. -/
def openSegment (kept : List (List UInt8)) (segment : List UInt8) : List (List UInt8) :=
  if segment == [0x2e] then kept else if segment == [0x2e,0x2e] then kept.dropLast else kept ++ [segment]

/-- A path that ends in a dot segment ends in a slash. -/
def closing (kept : List (List UInt8)) (last : List UInt8) : List (List UInt8) :=
  if isDots last then kept ++ [[]] else kept

@[simp] theorem joined_nil : joined [] = [] := rfl

@[simp] theorem joined_cons (segment : List UInt8) (segments : List (List UInt8)) :
    joined (segment :: segments) = 0x2f :: (segment ++ joined segments) := by simp [joined]

@[simp] theorem joined_append (first second : List (List UInt8)) :
    joined (first ++ second) = joined first ++ joined second := List.flatMap_append

/-- What follows a segment: nothing, or a slash. -/
def Behind (rest : List UInt8) : Prop := ∀ byte ∈ rest.head?, byte = 0x2f

theorem joined_behind (segments : List (List UInt8)) : Behind (joined segments) := by
  cases segments <;> simp [Behind]

theorem splitSegment_slash {segment rest : List UInt8} (plain : (0x2f : UInt8) ∉ segment) (behind : Behind rest) :
    splitSegment (0x2f :: (segment ++ rest)) = (0x2f :: segment,rest) := by
  have inside : ∀ byte ∈ segment, (byte != 0x2f) = true := by
    intro byte member
    rw [bne_iff_ne]
    rintro rfl
    exact plain member
  have stops : rest.takeWhile (· != 0x2f) = [] ∧ rest.dropWhile (· != 0x2f) = rest := by
    cases rest with
    | nil => simp
    | cons byte rest =>
      obtain rfl := behind byte rfl
      simp
  simp [splitSegment,List.takeWhile_append_of_pos inside,List.dropWhile_append_of_pos inside,stops]

theorem removeDots_segment (output : List UInt8) {segment rest : List UInt8} (plain : (0x2f : UInt8) ∉ segment)
    (other : isDots segment = false) (behind : Behind rest) :
    removeDots output (0x2f :: (segment ++ rest)) = removeDots (output ++ 0x2f :: segment) rest := by
  simp only [isDots,Bool.or_eq_false_iff,beq_eq_false_iff_ne] at other
  -- the text behind the slash shows a dot segment only where the segment is one
  have shape : (∀ tail, segment ++ rest ≠ 0x2e :: 0x2f :: tail) ∧ segment ++ rest ≠ [0x2e] ∧
      (∀ tail, segment ++ rest ≠ 0x2e :: 0x2e :: 0x2f :: tail) ∧ segment ++ rest ≠ [0x2e,0x2e] := by
    have front : ∀ tail, rest ≠ 0x2e :: tail := by
      rintro tail rfl
      exact absurd (behind 0x2e rfl) (by decide)
    have free : ∀ byte ∈ segment, byte ≠ 0x2f := fun byte member same => plain (same ▸ member)
    rcases segment with _ | ⟨first,_ | ⟨second,_ | ⟨third,segment⟩⟩⟩
    · simp [front]
    · simp_all
    · simp_all
    · simp_all
  obtain ⟨single,singleEnd,double,doubleEnd⟩ := shape
  conv_lhs => unfold removeDots
  split
  · rename_i same
    cases same
  · rename_i same
    simp at same
  · rename_i same
    simp at same
  · rename_i same
    exact absurd (List.cons.inj same).2 (single _)
  · rename_i same
    exact absurd (List.cons.inj same).2 singleEnd
  · rename_i same
    exact absurd (List.cons.inj same).2 (double _)
  · rename_i same
    exact absurd (List.cons.inj same).2 doubleEnd
  · rename_i same
    simp at same
  · rename_i same
    simp at same
  · rename_i same
    rw [← same,splitSegment_slash plain behind]

theorem dropSegment_joined {kept : List (List UInt8)} (plain : ∀ segment ∈ kept, (0x2f : UInt8) ∉ segment) :
    dropSegment (joined kept) = joined kept.dropLast := by
  rcases kept.eq_nil_or_concat with rfl | ⟨init,last,rfl⟩
  · rfl
  · have inside : ∀ byte ∈ last.reverse, (byte != 0x2f) = true := by
      intro byte member
      rw [bne_iff_ne]
      rintro rfl
      exact plain last (by simp) (List.mem_reverse.mp member)
    simp [dropSegment,List.dropWhile_append_of_pos inside]

theorem removeDots_joined {segments : List (List UInt8)} (some : segments ≠ [])
    (plain : ∀ segment ∈ segments, (0x2f : UInt8) ∉ segment) (kept : List (List UInt8))
    (keptPlain : ∀ segment ∈ kept, (0x2f : UInt8) ∉ segment) :
    removeDots (joined kept) (joined segments) =
      joined (closing (segments.foldl openSegment kept) (segments.getLast some)) := by
  have slash : ∀ output : List UInt8, removeDots output [0x2f] = output ++ [0x2f] := by
    intro output
    have last : removeDots output (0x2f :: ([] ++ [])) = removeDots (output ++ [0x2f]) [] :=
      removeDots_segment output (by simp) (by decide) (by simp [Behind])
    simpa [removeDots] using last
  induction segments generalizing kept with
  | nil => exact absurd rfl some
  | cons segment segments ih =>
    have here : (0x2f : UInt8) ∉ segment := plain segment (by simp)
    have later : ∀ segment ∈ segments, (0x2f : UInt8) ∉ segment := fun other member => plain other (by simp [member])
    have opened : ∀ other ∈ openSegment kept segment, (0x2f : UInt8) ∉ other := by
      intro other member
      unfold openSegment at member
      split_ifs at member
      · exact keptPlain other member
      · exact keptPlain other ((List.dropLast_sublist kept).mem member)
      · rcases List.mem_append.mp member with member | member
        · exact keptPlain other member
        · rw [List.mem_singleton.mp member]
          exact here
    by_cases dot : segment = [0x2e]
    · subst dot
      cases segments with
      | nil =>
        rw [joined_cons,joined_nil,List.append_nil,removeDots,slash]
        simp [openSegment,closing,isDots]
      | cons next segments =>
        rw [joined_cons,joined_cons,List.cons_append,List.nil_append,removeDots,← joined_cons,
          ih (by simp) later kept keptPlain]
        rfl
    · by_cases dots : segment = [0x2e,0x2e]
      · subst dots
        have dropped : ∀ other ∈ kept.dropLast, (0x2f : UInt8) ∉ other :=
          fun other member => keptPlain other ((List.dropLast_sublist kept).mem member)
        cases segments with
        | nil =>
          rw [joined_cons,joined_nil,List.append_nil,removeDots,slash,dropSegment_joined keptPlain]
          simp [openSegment,closing,isDots]
        | cons next segments =>
          rw [joined_cons,joined_cons,List.cons_append,List.cons_append,List.nil_append,removeDots,← joined_cons,
            dropSegment_joined keptPlain,ih (by simp) later kept.dropLast dropped]
          rfl
      · have other : isDots segment = false := by simp [isDots,dot,dots]
        have step : openSegment kept segment = kept ++ [segment] := by simp [openSegment,dot,dots]
        rw [joined_cons,removeDots_segment (joined kept) here other (joined_behind segments)]
        have grown : joined kept ++ 0x2f :: segment = joined (openSegment kept segment) := by simp [step]
        rw [grown]
        cases segments with
        | nil =>
          rw [joined_nil,removeDots]
          simp [closing,other]
        | cons next segments =>
          rw [ih (by simp) later _ opened]
          rfl

end Polyguard.DotSegments
