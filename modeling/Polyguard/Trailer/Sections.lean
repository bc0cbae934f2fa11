import Polyguard.Header.Agreement
import Polyguard.Trailer.Declarations

/-! The accepted part of a trailer section.
The implementations differ in which fault they report, so each of them is brought to
the lines of the section and to the fields of these lines as a partial function. -/
namespace Polyguard.TrailerSections
open Ascii Slices HeaderFraming HeaderFields HeaderAgreement TrailerDeclarations

section Partial

variable {α β : Type}

@[simp] theorem toOption_ok (value : α) : (.ok value : Result α).toOption = some value := rfl

@[simp] theorem toOption_error (error : PolyguardError) : (.error error : Result α).toOption = none := rfl

@[simp] theorem toOption_invalid (reason : String) : (invalidTrailer reason : Result α).toOption = none := rfl

@[simp] theorem toOption_limit (actual : Nat) : (trailerLimit actual : Result α).toOption = none := rfl

@[simp] theorem toOption_bind (first : Result α) (next : α → Result β) :
    (first >>= next).toOption = first.toOption.bind fun value => (next value).toOption := by
  cases first <;> rfl

theorem toOption_ite (p : Prop) [Decidable p] (left right : Result α) :
    (if p then left else right).toOption = if p then left.toOption else right.toOption := apply_ite _ _ _ _

theorem toOption_iff (result : Result α) (value : α) : result.toOption = some value ↔ result = .ok value := by
  cases result with
  | error error => simp
  | ok other => simp

end Partial

/-- The next line up to its CRLF, and what follows. -/
def nextLine (position : Nat) : List UInt8 → Option (List UInt8 × List UInt8)
  | [] => none
  | byte :: bytes =>
    if byte = 0x0a then none
    else if byte = 0x0d then
      if bytes.head? = some 0x0a ∧ position + 2 ≤ trailerBytes then some ([],bytes.tail) else none
    else (nextLine (position + 1) bytes).map fun parts => (byte :: parts.1,parts.2)

/-- The lines before the empty one, when the section ends. -/
inductive Lined : Nat → List UInt8 → Option (List (List UInt8)) → Prop where
  | failed {offset : Nat} {suffix : List UInt8} : nextLine offset suffix = none → Lined offset suffix none
  | ended {offset : Nat} {suffix rest : List UInt8} : nextLine offset suffix = some ([],rest) → Lined offset suffix (some [])
  | line {offset : Nat} {suffix line rest : List UInt8} {lines : Option (List (List UInt8))} :
      nextLine offset suffix = some (line,rest) → line ≠ [] → Lined (offset + line.length + 2) rest lines →
      Lined offset suffix (lines.map (line :: ·))

theorem nextLine_iff (position : Nat) (suffix line rest : List UInt8) :
    nextLine position suffix = some (line,rest) ↔
      suffix = line ++ 0x0d :: 0x0a :: rest ∧ (∀ b ∈ line, Inner b) ∧ position + line.length + 2 ≤ trailerBytes := by
  induction suffix generalizing position line with
  | nil => simp [nextLine]
  | cons byte bytes ih =>
    unfold nextLine
    by_cases feed : byte = 0x0a
    · rw [if_pos feed]
      constructor
      · intro impossible
        cases impossible
      · rintro ⟨same,inner,_⟩
        rcases line with _ | ⟨first,line⟩
        · cases same
          cases feed
        · cases same
          exact absurd feed (inner byte (by simp)).2
    · rw [if_neg feed]
      by_cases cr : byte = 0x0d
      · rw [if_pos cr]
        subst cr
        constructor
        · intro found
          split at found
          · rename_i closed
            cases found
            obtain ⟨rest,rfl⟩ : ∃ rest, bytes = 0x0a :: rest := by
              rcases bytes with _ | ⟨next,bytes⟩
              · simp at closed
              · simp only [List.head?_cons,Option.some.injEq] at closed
                exact ⟨bytes,by rw [closed.1]⟩
            exact ⟨rfl,by simp,by simpa using closed.2⟩
          · cases found
        · rintro ⟨same,inner,fits⟩
          rcases line with _ | ⟨first,line⟩
          · simp only [List.nil_append,List.cons.injEq,true_and] at same
            subst same
            simpa using fits
          · cases same
            exact absurd rfl (inner 0x0d (by simp)).1
      · rw [if_neg cr]
        constructor
        · intro found
          obtain ⟨⟨line',rest'⟩,scanned,same⟩ := Option.map_eq_some_iff.mp found
          cases same
          obtain ⟨rfl,inner,fits⟩ := (ih _ _).mp scanned
          refine ⟨rfl,?_,by simp only [List.length_cons]; omega⟩
          intro b member
          rcases List.mem_cons.mp member with rfl | inside
          · exact ⟨cr,feed⟩
          · exact inner b inside
        · rintro ⟨same,inner,fits⟩
          rcases line with _ | ⟨first,line⟩
          · cases same
            exact absurd rfl cr
          · cases same
            simp only [List.length_cons] at fits
            rw [(ih (position + 1) line).mpr ⟨rfl,fun b member => inner b (by simp [member]),by omega⟩]
            rfl

theorem lined_total (suffix : List UInt8) (offset : Nat) : ∃ lines, Lined offset suffix lines := by
  generalize size : suffix.length = bound
  induction bound using Nat.strong_induction_on generalizing suffix offset with
  | _ bound ih =>
    cases scanned : nextLine offset suffix with
    | none => exact ⟨none,.failed scanned⟩
    | some parts =>
      obtain ⟨line,rest⟩ := parts
      by_cases empty : line = []
      · subst empty
        exact ⟨some [],.ended scanned⟩
      · obtain ⟨same,_,_⟩ := (nextLine_iff _ _ _ _).mp scanned
        have shorter : rest.length < bound := by
          rw [← size,same]
          simp only [List.length_append,List.length_cons]
          omega
        obtain ⟨lines,later⟩ := ih rest.length shorter rest (offset + line.length + 2) rfl
        exact ⟨_,.line scanned empty later⟩

theorem lined_unique {offset : Nat} {suffix : List UInt8} {left right : Option (List (List UInt8))} (lined : Lined offset suffix left)
    (other : Lined offset suffix right) : left = right := by
  induction lined generalizing right with
  | failed scanned =>
    cases other with
    | failed => rfl
    | ended scanned' => rw [scanned] at scanned'; cases scanned'
    | line scanned' => rw [scanned] at scanned'; cases scanned'
  | ended scanned =>
    cases other with
    | failed scanned' => rw [scanned] at scanned'; cases scanned'
    | ended => rfl
    | line scanned' filled => rw [scanned] at scanned'; cases scanned'; exact absurd rfl filled
  | line scanned filled _ ih =>
    cases other with
    | failed scanned' => rw [scanned] at scanned'; cases scanned'
    | ended scanned' => rw [scanned] at scanned'; cases scanned'; exact absurd rfl filled
    | line scanned' _ later =>
      rw [scanned] at scanned'
      cases scanned'
      rw [ih later]

theorem wire_length (line : List UInt8) (lines : List (List UInt8)) :
    (wire (line :: lines)).length = line.length + 2 + (wire lines).length := by
  rw [wire_cons]
  simp only [List.length_append,List.length_cons]
  omega

theorem lined_iff (offset : Nat) (suffix : List UInt8) (lines : List (List UInt8)) :
    Lined offset suffix (some lines) ↔
      ∃ rest, suffix = wire lines ++ 0x0d :: 0x0a :: rest ∧ (∀ line ∈ lines, Whole line) ∧
        offset + (wire lines).length + 2 ≤ trailerBytes := by
  constructor
  · intro lined
    generalize same : some lines = outcome at lined
    induction lined generalizing lines with
    | failed => cases same
    | ended scanned =>
      cases same
      obtain ⟨split,_,fits⟩ := (nextLine_iff _ _ _ _).mp scanned
      exact ⟨_,by simpa [wire] using split,by simp,by simpa [wire] using fits⟩
    | @line offset suffix line rest later scanned filled _ ih =>
      obtain ⟨others,rfl,rfl⟩ := Option.map_eq_some_iff.mp same.symm
      obtain ⟨split,inner,_⟩ := (nextLine_iff _ _ _ _).mp scanned
      obtain ⟨tail,tailSplit,whole,fits⟩ := ih others rfl
      refine ⟨tail,?_,?_,?_⟩
      · rw [split,tailSplit,wire_cons]
        simp
      · intro other member
        rcases List.mem_cons.mp member with rfl | inside
        · exact ⟨filled,inner⟩
        · exact whole other inside
      · rw [wire_length]
        omega
  · rintro ⟨rest,rfl,whole,fits⟩
    induction lines generalizing offset with
    | nil =>
      exact .ended ((nextLine_iff _ _ _ _).mpr ⟨rfl,by simp,by simpa [wire] using fits⟩)
    | cons line lines ih =>
      have first := whole line (by simp)
      rw [wire_length] at fits
      have scanned : nextLine offset (wire (line :: lines) ++ 0x0d :: 0x0a :: rest) =
          some (line,wire lines ++ 0x0d :: 0x0a :: rest) := by
        apply (nextLine_iff _ _ _ _).mpr
        exact ⟨by rw [wire_cons]; simp,first.2,by omega⟩
      exact .line scanned first.1 (ih (offset + line.length + 2) (fun other member => whole other (by simp [member])) (by omega))

/-- The field of a complete line. -/
def lineField (line : List UInt8) : Option HeaderField :=
  (position (· == 0x3a) line).bind fun colon =>
    let name := line.take colon
    let raw := line.drop (colon + 1)
    if name ≠ [] ∧ name.length ≤ trailerNameBytes ∧ name.all isTchar ∧ raw.all isValueByte then
      some ⟨name.map toAsciiLowercase,trim isBlank raw⟩
    else none

theorem lineField_absent {line : List UInt8} (absent : 0x3a ∉ line) : lineField line = none := by
  unfold lineField
  rw [colon_absent absent]
  rfl

theorem lineField_split {name : List UInt8} (absent : 0x3a ∉ name) (raw : List UInt8) :
    lineField (name ++ 0x3a :: raw) =
      if name ≠ [] ∧ name.length ≤ trailerNameBytes ∧ name.all isTchar ∧ raw.all isValueByte then
        some ⟨name.map toAsciiLowercase,trim isBlank raw⟩
      else none := by
  unfold lineField
  rw [colon_position absent]
  simp only [Option.bind_some,take_hit,drop_hit]

theorem lineField_iff {line : List UInt8} (fits : line.length ≤ trailerBytes) (field : HeaderField) :
    lineField line = some field ↔ ∃ parsed : FieldLine, parsed.bytes = line ∧ parsed.field = field := by
  rw [← parseLine_ok_iff 0]
  rcases colon_split line with absent | ⟨name,raw,rfl,absent⟩
  · rw [lineField_absent absent,parseLine_absent 0 absent]
    constructor
    · intro impossible
      cases impossible
    · intro ok
      split at ok <;> cases ok
  · have within : (trim isBlank raw).length ≤ headerValueBytes := by
      have shorter := trim_length_le isBlank raw
      simp only [List.length_append,List.length_cons,trailerBytes] at fits
      unfold headerValueBytes
      omega
    rw [lineField_split absent,parseLine_split 0 absent,parseSplit_eq]
    by_cases filled : name = []
    · rw [if_neg (by simp [filled]),if_pos filled]
      constructor
      · intro impossible
        cases impossible
      · intro ok
        split at ok <;> cases ok
    · obtain ⟨first,rest,same⟩ := List.exists_cons_of_ne_nil filled
      by_cases tokens : name.all isTchar = true
      · have plain : ∀ b ∈ name, isBlank b = false :=
          fun b member => ((value_classes b).2 (List.all_eq_true.mp tokens b member)).2
        have unblank : name.any isBlank = false := by simpa using plain
        have unfolded : (name ++ 0x3a :: raw).head?.any isBlank = false := by
          simp [same,plain first (by simp [same])]
        rw [unfolded]
        simp only [Bool.false_eq_true,if_false]
        by_cases short : name.length ≤ trailerNameBytes
        · have short' : ¬ name.length > headerNameBytes := Nat.not_lt.mpr short
          by_cases values : raw.all isValueByte = true
          · rw [if_pos ⟨filled,short,tokens,values⟩]
            simp [filled,short',unblank,tokens,values,Nat.not_lt.mpr within]
          · rw [if_neg fun all => values all.2.2.2]
            simp [filled,short',unblank,tokens,values,invalidHeader]
        · have long : name.length > headerNameBytes := Nat.not_le.mp short
          rw [if_neg fun all => short all.2.1]
          simp [filled,long,nameLimit]
      · rw [if_neg fun all => tokens all.2.2.1]
        constructor
        · intro impossible
          cases impossible
        · intro ok
          repeat' split at ok
          all_goals cases ok
          rename_i token _ _
          exact absurd (by simpa using token) tokens

/-- A field that the declared names and the earlier fields allow. -/
def Admits (names : List (List UInt8)) (earlier : List HeaderField) (field : HeaderField) : Prop :=
  isForbiddenTrailer field.name = false ∧ field.name ∈ names ∧ field.name ∉ earlier.map (·.name)

instance (names : List (List UInt8)) (earlier : List HeaderField) (field : HeaderField) : Decidable (Admits names earlier field) :=
  inferInstanceAs (Decidable (_ ∧ _ ∧ _))

/-- The fields of the lines behind the earlier ones. -/
def permit (names : List (List UInt8)) : List HeaderField → List (List UInt8) → Option (List HeaderField)
  | earlier,[] => some earlier
  | earlier,line :: lines =>
    if earlier.length = trailerFields then none
    else (lineField line).bind fun field => if Admits names earlier field then permit names (earlier ++ [field]) lines else none

/-- What every implementation accepts of a section. -/
def accepted (names : List (List UInt8)) (lines : Option (List (List UInt8))) : Option TrailerBlock :=
  lines.bind fun lines => (permit names [] lines).map fun fields => ⟨fields,(wire lines).length + 2⟩

theorem permit_iff (names : List (List UInt8)) (lines : List (List UInt8)) (fits : ∀ line ∈ lines, line.length ≤ trailerBytes)
    (earlier fields : List HeaderField) (room : earlier.length ≤ trailerFields) :
    permit names earlier lines = some fields ↔
      ∃ parsed : List FieldLine, parsed.map FieldLine.bytes = lines ∧ fields = earlier ++ parsed.map FieldLine.field ∧
        earlier.length + parsed.length ≤ trailerFields ∧
        (∀ line ∈ parsed, isForbiddenTrailer line.field.name = false ∧ line.field.name ∈ names) ∧
        (∀ line ∈ parsed, line.field.name ∉ earlier.map (·.name)) ∧ (parsed.map (·.field.name)).Nodup := by
  induction lines generalizing earlier with
  | nil =>
    unfold permit
    constructor
    · intro same
      cases same
      exact ⟨[],rfl,by simp,by simpa using room,by simp,by simp,by simp⟩
    · rintro ⟨parsed,bytes,rfl,-⟩
      rw [List.map_eq_nil_iff.mp bytes,List.map_nil,List.append_nil]
  | cons line lines ih =>
    have short := fits line (by simp)
    unfold permit
    constructor
    · intro found
      split at found
      · cases found
      · rename_i free
        obtain ⟨field,read,found⟩ := Option.bind_eq_some_iff.mp found
        split at found
        · rename_i admits
          obtain ⟨first,bytes,rfl⟩ := (lineField_iff short field).mp read
          obtain ⟨parsed,others,same,within,allowed,fresh,distinct⟩ :=
            (ih (fun other member => fits other (by simp [member])) (earlier ++ [first.field]) (by simp; omega)).mp found
          simp only [List.map_append,List.map_cons,List.map_nil,List.mem_append,List.mem_singleton,not_or] at fresh
          refine ⟨first :: parsed,by simp [bytes,others],by simp [same],?_,?_,?_,?_⟩
          · simp only [List.length_append,List.length_cons,List.length_nil] at within ⊢
            omega
          · intro other member
            rcases List.mem_cons.mp member with rfl | inside
            · exact ⟨admits.1,admits.2.1⟩
            · exact allowed other inside
          · intro other member
            rcases List.mem_cons.mp member with rfl | inside
            · exact admits.2.2
            · exact (fresh other inside).1
          · rw [List.map_cons,List.nodup_cons]
            refine ⟨?_,distinct⟩
            intro member
            obtain ⟨other,inside,same⟩ := List.mem_map.mp member
            exact (fresh other inside).2 same
        · cases found
    · rintro ⟨parsed,bytes,rfl,within,allowed,fresh,distinct⟩
      rcases parsed with _ | ⟨first,parsed⟩
      · cases bytes
      · obtain ⟨rfl,rfl⟩ := List.cons_eq_cons.mp bytes
        simp only [List.length_cons] at within
        rw [List.map_cons,List.nodup_cons] at distinct
        have read := (lineField_iff short first.field).mpr ⟨first,rfl,rfl⟩
        have admits : Admits names earlier first.field :=
          ⟨(allowed first (by simp)).1,(allowed first (by simp)).2,fresh first (by simp)⟩
        rw [if_neg (by omega),read,Option.bind_some,if_pos admits]
        apply (ih (fun other member => fits other (by simp [member])) (earlier ++ [first.field]) (by simp; omega)).mpr
        refine ⟨parsed,rfl,by simp,by simp only [List.length_append,List.length_cons,List.length_nil]; omega,
          fun other member => allowed other (by simp [member]),?_,distinct.2⟩
        intro other member
        simp only [List.map_append,List.map_cons,List.map_nil,List.mem_append,List.mem_singleton,not_or]
        refine ⟨fresh other (by simp [member]),?_⟩
        intro same
        exact distinct.1 (same ▸ List.mem_map_of_mem member)

/-- A well-formed section that the declared names allow: at most 32 field lines with their CRLFs and one empty
line, all in at most 8192 bytes, with distinct declared names that are not forbidden. -/
def Section (input : List UInt8) (names : List (List UInt8)) (block : TrailerBlock) : Prop :=
  ∃ (lines : List FieldLine) (rest : List UInt8),
    input = wire (lines.map FieldLine.bytes) ++ 0x0d :: 0x0a :: rest ∧ lines.length ≤ trailerFields ∧
    block.bytesConsumed = (wire (lines.map FieldLine.bytes)).length + 2 ∧ block.bytesConsumed ≤ trailerBytes ∧
    block.fields = lines.map FieldLine.field ∧ (lines.map (·.field.name)).Nodup ∧
    ∀ line ∈ lines, line.field.name ∈ names ∧ isForbiddenTrailer line.field.name = false

theorem wire_within {lines : List (List UInt8)} {line : List UInt8} (member : line ∈ lines) : line.length ≤ (wire lines).length := by
  induction lines with
  | nil => cases member
  | cons first lines ih =>
    rw [wire_length]
    rcases List.mem_cons.mp member with rfl | inside
    · omega
    · have := ih inside
      omega

theorem section_iff {input : List UInt8} {lines : Option (List (List UInt8))} (lined : Lined 0 input lines) (names : List (List UInt8))
    (block : TrailerBlock) : accepted names lines = some block ↔ Section input names block := by
  unfold accepted
  constructor
  · intro found
    obtain ⟨lines,rfl,found⟩ := Option.bind_eq_some_iff.mp found
    obtain ⟨fields,permitted,rfl⟩ := Option.map_eq_some_iff.mp found
    obtain ⟨rest,split,_,fits⟩ := (lined_iff 0 input lines).mp lined
    have short : ∀ line ∈ lines, line.length ≤ trailerBytes := fun line member => by
      have inside := wire_within member
      omega
    obtain ⟨parsed,rfl,rfl,within,allowed,-,distinct⟩ := (permit_iff names lines short [] fields (by decide)).mp permitted
    exact ⟨parsed,rest,split,by simpa using within,rfl,by simpa using fits,rfl,distinct,fun line member => (allowed line member).symm⟩
  · rintro ⟨parsed,rest,split,within,consumed,limit,fields,distinct,allowed⟩
    have whole : ∀ line ∈ parsed.map FieldLine.bytes, Whole line := by
      intro line inside
      obtain ⟨source,_,rfl⟩ := List.mem_map.mp inside
      exact source.whole
    rw [consumed] at limit
    have placed := (lined_iff 0 input _).mpr ⟨rest,split,whole,by omega⟩
    rw [lined_unique lined placed,Option.bind_some]
    have short : ∀ line ∈ parsed.map FieldLine.bytes, line.length ≤ trailerBytes := fun line member => by
      have inside := wire_within member
      omega
    rw [(permit_iff names _ short [] block.fields (by decide)).mpr
      ⟨parsed,rfl,by simpa using fields,by simpa using within,fun line member => (allowed line member).symm,by simp,distinct⟩,
      Option.map_some,← consumed]

end Polyguard.TrailerSections
