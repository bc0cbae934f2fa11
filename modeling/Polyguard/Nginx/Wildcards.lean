import Polyguard.Nginx.Directives

/-! The matching of a file name against an include pattern. The matcher keeps one star and
one checkpoint; it looks for an equal byte before it looks for a star, so a star of the
pattern that meets a star of the name is taken as that byte. -/
namespace Polyguard.Nginx
open Ascii

/-- The offsets of the matcher. A star lies behind the pattern offset and a checkpoint behind the value offset. -/
structure Cursor where
  patternOffset : Nat
  valueOffset : Nat
  star : Option Nat
  checkpoint : Nat
  starBehind : ∀ offset ∈ star, offset < patternOffset
  checkpointBehind : checkpoint ≤ valueOffset

def Cursor.start : Cursor := ⟨0,0,none,0,by simp,Nat.le_refl _⟩

def Cursor.advance (cursor : Cursor) : Cursor :=
  ⟨cursor.patternOffset + 1,cursor.valueOffset + 1,cursor.star,cursor.checkpoint,
    fun offset inside => Nat.lt_succ_of_lt (cursor.starBehind offset inside),Nat.le_succ_of_le cursor.checkpointBehind⟩

def Cursor.mark (cursor : Cursor) : Cursor :=
  ⟨cursor.patternOffset + 1,cursor.valueOffset,some cursor.patternOffset,cursor.valueOffset,by simp,Nat.le_refl _⟩

def Cursor.retry (cursor : Cursor) (star : Nat) : Cursor :=
  ⟨star + 1,cursor.checkpoint + 1,some star,cursor.checkpoint + 1,by simp,Nat.le_refl _⟩

/-- The offset after the stars that are left. -/
def skipStars (pattern : List UInt8) (offset : Nat) : Nat :=
  offset + ((pattern.drop offset).takeWhile (· == 0x2a)).length

def wildcardLoop (pattern value : List UInt8) (cursor : Cursor) : Bool :=
  if _within : cursor.valueOffset < value.length then
    if pattern[cursor.patternOffset]? == some 0x3f || pattern[cursor.patternOffset]? == value[cursor.valueOffset]? then
      wildcardLoop pattern value cursor.advance
    else if _starred : pattern[cursor.patternOffset]? = some 0x2a then wildcardLoop pattern value cursor.mark
    else match _marked : cursor.star with
      | some star => wildcardLoop pattern value (cursor.retry star)
      | none => false
  else skipStars pattern cursor.patternOffset == pattern.length
termination_by (pattern.length - cursor.star.elim 0 (· + 1),value.length - cursor.checkpoint,value.length - cursor.valueOffset)
decreasing_by
  · exact Prod.Lex.right _ (Prod.Lex.right _ (by simp only [Cursor.advance]; omega))
  · have inside : cursor.patternOffset < pattern.length := (List.getElem?_eq_some_iff.mp _starred).1
    refine Prod.Lex.left _ _ ?_
    simp only [Cursor.mark,Option.elim_some]
    cases marked : cursor.star with
    | none =>
      simp only [Option.elim_none]
      omega
    | some star =>
      have := cursor.starBehind star marked
      simp only [Option.elim_some]
      omega
  · have := cursor.checkpointBehind
    simp only [_marked,Cursor.retry]
    exact Prod.Lex.right _ (Prod.Lex.left _ _ (by omega))

def wildcardMatches (pattern value : List UInt8) : Bool := wildcardLoop pattern value .start

section Globs

/-- The name is the pattern with any bytes for each `*` and one byte for each `?`. -/
inductive Glob : List UInt8 → List UInt8 → Prop
  | nil : Glob [] []
  | star (taken : List UInt8) {pattern value : List UInt8} : Glob pattern value → Glob (0x2a :: pattern) (taken ++ value)
  | any (byte : UInt8) {pattern value : List UInt8} : Glob pattern value → Glob (0x3f :: pattern) (byte :: value)
  | exact {byte : UInt8} (star : byte ≠ 0x2a) (any : byte ≠ 0x3f) {pattern value : List UInt8} :
      Glob pattern value → Glob (byte :: pattern) (byte :: value)

/-- A name made from the pattern where each `*` that meets a `*` of the name stands for just that byte. -/
inductive StarsKept : List UInt8 → List UInt8 → Prop
  | nil : StarsKept [] []
  | star (taken : List UInt8) {pattern value : List UInt8} (meets : (taken ++ value).head? ≠ some 0x2a) :
      StarsKept pattern value → StarsKept (0x2a :: pattern) (taken ++ value)
  | kept {pattern value : List UInt8} : StarsKept pattern value → StarsKept (0x2a :: pattern) (0x2a :: value)
  | any (byte : UInt8) {pattern value : List UInt8} : StarsKept pattern value → StarsKept (0x3f :: pattern) (byte :: value)
  | exact {byte : UInt8} (star : byte ≠ 0x2a) (any : byte ≠ 0x3f) {pattern value : List UInt8} :
      StarsKept pattern value → StarsKept (byte :: pattern) (byte :: value)

theorem StarsKept.glob {pattern value : List UInt8} (kept : StarsKept pattern value) : Glob pattern value := by
  induction kept with
  | nil => exact .nil
  | star taken meets _ ih => exact .star taken ih
  | kept _ ih => exact .star [0x2a] ih
  | any byte _ ih => exact .any byte ih
  | exact star any _ ih => exact .exact star any ih

theorem starsKept_nil (pattern : List UInt8) : StarsKept pattern [] ↔ ∀ byte ∈ pattern, byte = 0x2a := by
  induction pattern with
  | nil => exact ⟨fun _ => by simp,fun _ => .nil⟩
  | cons byte pattern ih =>
    constructor
    · intro kept
      generalize empty : ([] : List UInt8) = value at kept
      cases kept with
      | star taken meets later =>
        obtain ⟨rfl,rfl⟩ := List.append_eq_nil_iff.mp empty.symm
        simpa using ih.mp later
      | _ => cases empty
    · intro stars
      obtain rfl : byte = 0x2a := stars byte (by simp)
      exact .star [] (by simp) (ih.mpr fun byte member => stars byte (by simp [member]))

theorem starsKept_open {pattern value : List UInt8} (meets : value.head? ≠ some 0x2a) :
    StarsKept (0x2a :: pattern) value ↔ ∃ count, StarsKept pattern (value.drop count) := by
  constructor
  · intro kept
    cases kept with
    | star taken _ later => exact ⟨taken.length,by simpa using later⟩
    | kept later => exact absurd rfl meets
    | exact star any later => exact absurd rfl star
  · rintro ⟨count,later⟩
    have whole := StarsKept.star (value.take count) (by rwa [List.take_append_drop]) later
    rwa [List.take_append_drop] at whole

theorem starsKept_meets {pattern value : List UInt8} :
    StarsKept (0x2a :: pattern) (0x2a :: value) ↔ StarsKept pattern value := by
  constructor
  · intro kept
    generalize whole : (0x2a :: value) = name at kept
    cases kept with
    | star taken meets later => exact absurd (by rw [← whole]; rfl) meets
    | kept later => cases whole; exact later
    | exact star any later => exact absurd rfl star
  · exact .kept

theorem starsKept_any {pattern value : List UInt8} {byte : UInt8} :
    StarsKept (0x3f :: pattern) (byte :: value) ↔ StarsKept pattern value := by
  constructor
  · intro kept
    cases kept with
    | any byte later => exact later
    | exact star any later => exact absurd rfl any
  · exact .any byte

end Globs

section Matching
variable (pattern value : List UInt8)

/-- What is left of the name fits what is left of the pattern. -/
def FitsAt (patternOffset valueOffset : Nat) : Prop := StarsKept (pattern.drop patternOffset) (value.drop valueOffset)

/-- Giving up the last star loses nothing: a later fit from it passes the pattern offset again, further on. -/
structure Resumes (cursor : Cursor) : Prop where
  inside : cursor.patternOffset ≤ pattern.length
  later : ∀ star ∈ cursor.star, ∀ offset, cursor.checkpoint ≤ offset → FitsAt pattern value (star + 1) offset →
    ∃ further, cursor.valueOffset ≤ further ∧ FitsAt pattern value cursor.patternOffset further

variable {pattern value}

theorem starsKept_tail {byte : UInt8} {pattern value : List UInt8} (kept : StarsKept (byte :: pattern) value) :
    ∃ count, StarsKept pattern (value.drop count) := by
  cases kept with
  | star taken _ later => exact ⟨taken.length,by simpa using later⟩
  | kept later => exact ⟨1,later⟩
  | any byte later => exact ⟨1,later⟩
  | exact star any later => exact ⟨1,later⟩

theorem fits_further {patternOffset valueOffset : Nat} (inside : patternOffset < pattern.length)
    (fits : FitsAt pattern value patternOffset valueOffset) :
    ∃ further, valueOffset ≤ further ∧ FitsAt pattern value (patternOffset + 1) further := by
  rw [FitsAt,List.drop_eq_getElem_cons inside] at fits
  obtain ⟨count,later⟩ := starsKept_tail fits
  exact ⟨valueOffset + count,by omega,by rwa [List.drop_drop] at later⟩

theorem fits_advance {patternOffset valueOffset : Nat} (within : valueOffset < value.length)
    (same : pattern[patternOffset]? = some 0x3f ∨ pattern[patternOffset]? = value[valueOffset]?) :
    FitsAt pattern value patternOffset valueOffset ↔ FitsAt pattern value (patternOffset + 1) (valueOffset + 1) := by
  have inside : patternOffset < pattern.length := by
    by_contra beyond
    rw [List.getElem?_eq_none (by omega),List.getElem?_eq_getElem within] at same
    simp at same
  rw [List.getElem?_eq_getElem inside,List.getElem?_eq_getElem within] at same
  simp only [Option.some.injEq] at same
  rw [FitsAt,FitsAt,List.drop_eq_getElem_cons inside,List.drop_eq_getElem_cons within]
  generalize pattern[patternOffset] = byte at same
  generalize value[valueOffset] = other at same
  obtain rfl | rfl := same
  · exact starsKept_any
  · by_cases star : byte = 0x2a
    · subst star
      exact starsKept_meets
    · by_cases any : byte = 0x3f
      · subst any
        exact starsKept_any
      · constructor
        · intro kept
          generalize whole : byte :: value.drop (valueOffset + 1) = name at kept
          cases kept with
          | star _ _ _ => exact absurd rfl star
          | kept _ => exact absurd rfl star
          | any _ _ => exact absurd rfl any
          | exact _ _ later =>
            cases whole
            exact later
        · exact .exact star any

theorem fits_mark {patternOffset valueOffset : Nat} (starred : pattern[patternOffset]? = some 0x2a)
    (differs : pattern[patternOffset]? ≠ value[valueOffset]?) : FitsAt pattern value patternOffset valueOffset ↔
      ∃ further, valueOffset ≤ further ∧ FitsAt pattern value (patternOffset + 1) further := by
  obtain ⟨inside,star⟩ := List.getElem?_eq_some_iff.mp starred
  have meets : (value.drop valueOffset).head? ≠ some 0x2a := by
    rw [List.head?_drop]
    exact fun same => differs (starred.trans same.symm)
  rw [FitsAt,List.drop_eq_getElem_cons inside,star,starsKept_open meets]
  constructor
  · rintro ⟨count,later⟩
    exact ⟨valueOffset + count,by omega,by rwa [List.drop_drop] at later⟩
  · rintro ⟨further,beyond,later⟩
    refine ⟨further - valueOffset,?_⟩
    rw [List.drop_drop,Nat.add_sub_cancel' beyond]
    exact later

theorem fits_stuck {patternOffset valueOffset : Nat} (within : valueOffset < value.length)
    (any : pattern[patternOffset]? ≠ some 0x3f) (differs : pattern[patternOffset]? ≠ value[valueOffset]?)
    (star : pattern[patternOffset]? ≠ some 0x2a) : ¬FitsAt pattern value patternOffset valueOffset := by
  intro fits
  rw [FitsAt,List.drop_eq_getElem_cons within] at fits
  rw [List.getElem?_eq_getElem within] at differs
  by_cases inside : patternOffset < pattern.length
  · rw [List.drop_eq_getElem_cons inside] at fits
    rw [List.getElem?_eq_getElem inside] at any differs star
    generalize pattern[patternOffset] = byte at *
    generalize whole : value[valueOffset] :: value.drop (valueOffset + 1) = name at fits
    cases fits with
    | star _ _ _ => exact star rfl
    | kept _ => exact star rfl
    | any _ _ => exact any rfl
    | exact _ _ _ =>
      rw [List.cons.injEq] at whole
      exact differs (by rw [whole.1])
  · rw [List.drop_eq_nil_of_le (by omega)] at fits
    cases fits

theorem skipStars_iff {patternOffset : Nat} (inside : patternOffset ≤ pattern.length) :
    skipStars pattern patternOffset = pattern.length ↔ ∀ byte ∈ pattern.drop patternOffset, byte = 0x2a := by
  rw [skipStars]
  have size : (pattern.drop patternOffset).length = pattern.length - patternOffset := List.length_drop ..
  constructor
  · intro reached
    have all : ((pattern.drop patternOffset).takeWhile (· == 0x2a)).length = (pattern.drop patternOffset).length := by omega
    have same := (List.takeWhile_prefix (l := pattern.drop patternOffset) (· == 0x2a)).eq_of_length all
    intro byte member
    rw [← same] at member
    simpa using List.mem_takeWhile_imp member
  · intro stars
    rw [List.takeWhile_eq_self_iff.mpr (by simpa using stars),size]
    omega

theorem wildcardLoop_iff {cursor : Cursor} (resumes : Resumes pattern value cursor) :
    wildcardLoop pattern value cursor = true ↔ FitsAt pattern value cursor.patternOffset cursor.valueOffset ∨
      ∃ star ∈ cursor.star, ∃ offset, cursor.checkpoint < offset ∧ FitsAt pattern value (star + 1) offset := by
  fun_induction wildcardLoop pattern value cursor with
  | case1 cursor within same ih =>
    simp only [Bool.or_eq_true,beq_iff_eq] at same
    have moved := fits_advance within same
    have inside : cursor.patternOffset < pattern.length := by
      by_contra beyond
      rw [List.getElem?_eq_none (by omega),List.getElem?_eq_getElem within] at same
      simp at same
    have next : Resumes pattern value cursor.advance := by
      refine ⟨inside,?_⟩
      intro star member offset before fits
      obtain ⟨further,beyond,passes⟩ := resumes.later star member offset before fits
      obtain rfl | past := Nat.eq_or_lt_of_le beyond
      · exact ⟨cursor.valueOffset + 1,Nat.le_refl _,moved.mp passes⟩
      · obtain ⟨reached,later,fits⟩ := fits_further inside passes
        exact ⟨reached,by simp only [Cursor.advance]; omega,fits⟩
    rw [ih next,moved]
    rfl
  | case2 cursor within other starred ih =>
    simp only [Bool.or_eq_true,beq_iff_eq,not_or] at other
    have opened := fits_mark starred other.2
    have inside : cursor.patternOffset < pattern.length := (List.getElem?_eq_some_iff.mp starred).1
    have next : Resumes pattern value cursor.mark := by
      refine ⟨inside,?_⟩
      intro star member offset before fits
      cases member
      exact ⟨offset,before,fits⟩
    rw [ih next]
    constructor
    · rintro (fits | ⟨star,member,offset,past,fits⟩)
      · exact .inl (opened.mpr ⟨cursor.valueOffset,Nat.le_refl _,fits⟩)
      · cases member
        exact .inl (opened.mpr ⟨offset,Nat.le_of_lt past,fits⟩)
    · intro either
      -- a fit from the star that is given up goes through the new one
      have here : FitsAt pattern value cursor.patternOffset cursor.valueOffset := by
        obtain fits | ⟨star,member,offset,past,fits⟩ := either
        · exact fits
        · obtain ⟨further,beyond,passes⟩ := resumes.later star member offset (Nat.le_of_lt past) fits
          obtain ⟨reached,later,fits⟩ := fits_further inside passes
          exact opened.mpr ⟨reached,by omega,fits⟩
      obtain ⟨further,beyond,fits⟩ := opened.mp here
      obtain rfl | past := Nat.eq_or_lt_of_le beyond
      · exact .inl fits
      · exact .inr ⟨cursor.patternOffset,rfl,further,past,fits⟩
  | case3 cursor within other noStar star marked ih =>
    simp only [Bool.or_eq_true,beq_iff_eq,not_or] at other
    have stuck := fits_stuck within other.1 other.2 noStar
    have next : Resumes pattern value (cursor.retry star) := by
      have behind := cursor.starBehind star marked
      refine ⟨by have := resumes.inside; simp only [Cursor.retry]; omega,?_⟩
      intro star' member offset before fits
      cases member
      exact ⟨offset,before,fits⟩
    rw [ih next]
    constructor
    · rintro (fits | ⟨star',member,offset,past,fits⟩)
      · exact .inr ⟨star,marked,cursor.checkpoint + 1,Nat.lt_succ_self _,fits⟩
      · cases member
        simp only [Cursor.retry] at past
        exact .inr ⟨star,marked,offset,by omega,fits⟩
    · rintro (fits | ⟨star',member,offset,past,fits⟩)
      · exact absurd fits stuck
      · obtain rfl : star = star' := Option.some.inj (marked.symm.trans member)
        obtain rfl | further := Nat.eq_or_lt_of_le (Nat.succ_le_of_lt past)
        · exact .inl fits
        · exact .inr ⟨star,rfl,offset,further,fits⟩
  | case4 cursor within other noStar unmarked =>
    simp only [Bool.or_eq_true,beq_iff_eq,not_or] at other
    have stuck := fits_stuck within other.1 other.2 noStar
    simp [stuck,unmarked]
  | case5 cursor ended =>
    have atEnd : ∀ {patternOffset valueOffset : Nat}, cursor.valueOffset ≤ valueOffset →
        (FitsAt pattern value patternOffset valueOffset ↔ ∀ byte ∈ pattern.drop patternOffset, byte = 0x2a) := by
      intro patternOffset valueOffset beyond
      rw [FitsAt,List.drop_eq_nil_of_le (show value.length ≤ valueOffset by omega),starsKept_nil]
    rw [beq_iff_eq,skipStars_iff resumes.inside,← atEnd (Nat.le_refl _)]
    constructor
    · exact .inl
    · rintro (fits | ⟨star,member,offset,past,fits⟩)
      · exact fits
      · obtain ⟨further,beyond,passes⟩ := resumes.later star member offset (Nat.le_of_lt past) fits
        exact (atEnd (Nat.le_refl _)).mpr ((atEnd beyond).mp passes)

theorem wildcardMatches_iff (pattern value : List UInt8) : wildcardMatches pattern value = true ↔ StarsKept pattern value := by
  have resumes : Resumes pattern value .start := ⟨Nat.zero_le _,by simp [Cursor.start]⟩
  rw [wildcardMatches,wildcardLoop_iff resumes]
  simp [Cursor.start,FitsAt]

end Matching

/-- The matcher follows the glob reading of a pattern exactly where a name that has this reading also has one
in which each star at a star of the name is that star. -/
theorem wildcard_glob_iff (pattern name : List UInt8) :
    (wildcardMatches pattern name = true ↔ Glob pattern name) ↔ (Glob pattern name → StarsKept pattern name) := by
  rw [wildcardMatches_iff]
  constructor
  · exact fun same => same.mpr
  · exact fun keeps => ⟨StarsKept.glob,keeps⟩

/-- A file whose name starts with a star is missed by the pattern that takes every name. -/
theorem wildcard_glob_missed : ¬(wildcardMatches (ascii "*") (ascii "*a") = true ↔ Glob (ascii "*") (ascii "*a")) := by
  have missed : ¬StarsKept (ascii "*") (ascii "*a") := by
    intro kept
    have later : StarsKept [] [0x61] := starsKept_meets.mp kept
    cases later
  rw [wildcardMatches_iff]
  exact fun same => missed (same.mpr (.star (ascii "*a") .nil))

end Polyguard.Nginx
