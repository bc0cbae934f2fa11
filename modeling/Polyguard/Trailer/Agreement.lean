import Polyguard.Trailer.Sections

/-! Exactness of the trailer implementations.
Each of them frames the section, reads its lines and checks the names in its own
order and representation; what it accepts is the same section of field lines. -/
namespace Polyguard.TrailerAgreement
open Ascii Slices HeaderFraming HeaderFields HeaderAgreement TrailerDeclarations TrailerSections

theorem nextLine_limit {position : Nat} (past : trailerBytes < position + 2) (suffix : List UInt8) : nextLine position suffix = none := by
  cases scanned : nextLine position suffix with
  | none => rfl
  | some parts =>
    obtain ⟨_,_,fits⟩ := (nextLine_iff _ _ _ _).mp scanned
    omega

theorem located_next {input suffix line rest : List UInt8} {offset : Nat} (located : input.drop offset = suffix)
    (scanned : nextLine offset suffix = some (line,rest)) :
    input.drop offset = line ++ 0x0d :: 0x0a :: rest ∧ input.drop (offset + line.length + 2) = rest ∧
      offset + line.length + 2 ≤ trailerBytes := by
  obtain ⟨same,_,fits⟩ := (nextLine_iff _ _ _ _).mp scanned
  refine ⟨located.trans same,?_,fits⟩
  rw [Nat.add_assoc,← List.drop_drop,located,same,← List.drop_drop,List.drop_left]
  rfl

theorem located_slice {input line tail : List UInt8} {offset : Nat} (located : input.drop offset = line ++ tail) :
    slice input offset (offset + line.length) = line := by
  have cut := slice_within located 0 line.length (Nat.le_refl _)
  rw [Nat.add_zero] at cut
  rw [cut]
  simp [slice]

theorem token_name {name : List UInt8} (filled : name ≠ []) (tokens : name.all isTchar) (raw : List UInt8) :
    (name ++ 0x3a :: raw).head?.any isBlank = false ∧ name.any isBlank = false ∧
      (name.any fun b => !isBlank b && !isTchar b) = false := by
  obtain ⟨first,rest,rfl⟩ := List.exists_cons_of_ne_nil filled
  have plain : ∀ b ∈ first :: rest, isBlank b = false :=
    fun b member => ((value_classes b).2 (List.all_eq_true.mp tokens b member)).2
  refine ⟨by simpa using plain first (by simp),by simpa using plain,?_⟩
  rw [List.any_eq_false]
  intro b member
  simp [List.all_eq_true.mp tokens b member]

theorem trim_within {name raw : List UInt8} (fits : (name ++ 0x3a :: raw).length ≤ trailerBytes) :
    (trim isBlank raw).length ≤ trailerValueBytes := by
  have shorter := trim_length_le isBlank raw
  simp only [List.length_append,List.length_cons,trailerBytes] at fits
  unfold trailerValueBytes
  omega

/-- The block behind the fields that were read so far. -/
def blockFrom (names : List (List UInt8)) (offset : Nat) (earlier : List HeaderField) (lines : Option (List (List UInt8))) :
    Option TrailerBlock :=
  lines.bind fun lines => (permit names earlier lines).map fun fields => ⟨fields,offset + (wire lines).length + 2⟩

theorem blockFrom_line (names : List (List UInt8)) (offset : Nat) (earlier : List HeaderField) (line : List UInt8)
    (lines : Option (List (List UInt8))) :
    blockFrom names offset earlier (lines.map (line :: ·)) =
      if earlier.length = trailerFields then none
      else (lineField line).bind fun field =>
        if Admits names earlier field then blockFrom names (offset + line.length + 2) (earlier ++ [field]) lines else none := by
  unfold blockFrom
  cases lines with
  | none =>
    rw [Option.map_none,Option.bind_none]
    split
    · rfl
    · cases lineField line with
      | none => rfl
      | some field => simp
  | some lines =>
    rw [Option.map_some,Option.bind_some,permit,wire_length]
    split
    · rfl
    · cases lineField line with
      | none => rfl
      | some field =>
        simp only [Option.bind_some]
        split
        · rw [show offset + (line.length + 2 + (wire lines).length) + 2 = offset + line.length + 2 + (wire lines).length + 2 by omega]
        · rfl

theorem accepted_blockFrom (names : List (List UInt8)) (lines : Option (List (List UInt8))) :
    accepted names lines = blockFrom names 0 [] lines := by
  unfold accepted blockFrom
  simp only [Nat.zero_add]

theorem admits_guards {α : Type} {names : List (List UInt8)} {earlier : List HeaderField} (field : HeaderField)
    {forbidden undeclared taken : Prop} [Decidable forbidden] [Decidable undeclared] [Decidable taken]
    (first : forbidden ↔ isForbiddenTrailer field.name = true) (second : undeclared ↔ field.name ∉ names)
    (third : taken ↔ field.name ∈ earlier.map (·.name)) {value : Option α} :
    (if forbidden then none else if undeclared then none else if taken then none else value) =
      if Admits names earlier field then value else none := by
  by_cases allowed : isForbiddenTrailer field.name = true
  · rw [if_pos (first.mpr allowed),if_neg fun all => absurd allowed (by simp [all.1])]
  · rw [if_neg (mt first.mp allowed)]
    by_cases declared : field.name ∈ names
    · rw [if_neg (fun wrong => second.mp wrong declared)]
      by_cases fresh : field.name ∈ earlier.map (·.name)
      · rw [if_pos (third.mpr fresh),if_neg fun all => all.2.2 fresh]
      · rw [if_neg (mt third.mp fresh),if_pos ⟨by simpa using allowed,declared,fresh⟩]
    · rw [if_pos (second.mpr declared),if_neg fun all => declared all.2.1]

theorem checked_iff {τ β : Type} {table : Result τ} {names : List (List UInt8)} {read : τ → Option β} {target : Option β}
    (built : ∀ found, table = .ok found → Declarable names ∧ read found = target) (complete : Declarable names → ∃ found, table = .ok found)
    (value : β) : table.toOption.bind read = some value ↔ Declarable names ∧ target = some value := by
  cases table with
  | error error =>
    constructor
    · intro impossible
      cases impossible
    · rintro ⟨declarable,_⟩
      obtain ⟨_,impossible⟩ := complete declarable
      cases impossible
  | ok found =>
    obtain ⟨declarable,same⟩ := built found rfl
    rw [toOption_ok,Option.bind_some,same]
    simp [declarable]

section DirectTable

open TrailerDirectTable

theorem direct_locate (position : Nat) (bytes : List UInt8) :
    (locateFrom position bytes).toOption = (nextLine position bytes).map fun parts => (position + parts.1.length,position + parts.1.length + 2) := by
  induction bytes generalizing position with
  | nil => rfl
  | cons byte bytes ih =>
    unfold locateFrom
    by_cases limit : position = trailerBytes
    · rw [if_pos limit,nextLine_limit (by omega)]
      rfl
    · rw [if_neg limit]
      unfold nextLine
      by_cases feed : byte = 0x0a
      · simp [feed]
      · by_cases cr : byte = 0x0d
        · by_cases closed : bytes.head? = some 0x0a
          · by_cases fits : position + 2 ≤ trailerBytes
            · simp [cr,closed,fits,Nat.not_lt.mpr fits]
            · simp [cr,closed,fits,Nat.not_le.mp fits]
          · simp [cr,closed]
        · simp only [feed,cr,beq_iff_eq,if_false]
          rw [ih]
          cases nextLine (position + 1) bytes with
          | none => rfl
          | some parts =>
            simp only [Option.map_some,List.length_cons]
            congr 2 <;> omega

theorem direct_classes (byte : UInt8) :
    classify byte =
      if byte == 0x3a then .colon else if isBlank byte then .optionalWhitespace else if isTchar byte then .token
      else if isValueByte byte then .valueOnly else .prohibited :=
  forall_byte (p := fun b => classify b =
    if b == 0x3a then .colon else if isBlank b then .optionalWhitespace else if isTchar b then .token
    else if isValueByte b then .valueOnly else .prohibited) (by decide) byte

theorem direct_name (name : List UInt8) (absent : 0x3a ∉ name) (index : Nat) (summary : LineSummary) (before : summary.colon = none) :
    (name.zipIdx index).foldl observe summary =
      { summary with
        whitespaceInName := summary.whitespaceInName || name.any isBlank
        invalidName := summary.invalidName || name.any fun b => !isBlank b && !isTchar b } := by
  induction name generalizing index summary with
  | nil => simp
  | cons byte name ih =>
    have notColon : (byte == 0x3a) = false := by
      rw [beq_eq_false_iff_ne]
      rintro rfl
      exact absent (by simp)
    have step : observe summary (byte,index) =
        { summary with
          whitespaceInName := summary.whitespaceInName || isBlank byte
          invalidName := summary.invalidName || (!isBlank byte && !isTchar byte) } := by
      obtain ⟨starts,colon,whitespace,invalid,invalidValue,valueStart,valueEnd⟩ := summary
      obtain rfl : colon = none := before
      simp only [observe,direct_classes,notColon]
      cases isBlank byte <;> cases isTchar byte <;> cases isValueByte byte <;> simp
    rw [List.zipIdx_cons,List.foldl_cons,step,ih (fun member => absent (by simp [member])) (index + 1) _ (by simpa using before)]
    simp [Bool.or_assoc]

/-- The bytes of a value that the table does not take for content. -/
def quiet (byte : UInt8) : Bool := isBlank byte || !isValueByte byte

theorem direct_value (raw : List UInt8) (index : Nat) (summary : LineSummary) (behind : summary.colon.isSome) :
    (raw.zipIdx index).foldl observe summary =
      { summary with
        invalidValue := summary.invalidValue || !raw.all isValueByte
        valueStart := ((raw.zipIdx index).foldl (spanStep quiet) (summary.valueStart,summary.valueEnd)).1
        valueEnd := ((raw.zipIdx index).foldl (spanStep quiet) (summary.valueStart,summary.valueEnd)).2 } := by
  induction raw generalizing index summary with
  | nil => simp
  | cons byte raw ih =>
    obtain ⟨colon,found⟩ := Option.isSome_iff_exists.mp behind
    obtain ⟨blankValue,tokenValue⟩ := value_classes byte
    have step : observe summary (byte,index) =
        { summary with
          invalidValue := summary.invalidValue || !isValueByte byte
          valueStart := (spanStep quiet (summary.valueStart,summary.valueEnd) (byte,index)).1
          valueEnd := (spanStep quiet (summary.valueStart,summary.valueEnd) (byte,index)).2 } := by
      obtain ⟨starts,_,whitespace,invalid,invalidValue,valueStart,valueEnd⟩ := summary
      obtain rfl := found
      have start : some (valueStart.getD index) = valueStart.or (some index) := by cases valueStart <;> rfl
      simp only [observe,direct_classes,spanStep,quiet,start]
      by_cases isColon : byte = 0x3a
      · have value : isValueByte 0x3a = true := by decide
        have content : isBlank 0x3a = false := by decide
        simp [isColon,value,content]
      · by_cases blank : isBlank byte = true
        · simp [isColon,blank,blankValue blank]
        · by_cases token : isTchar byte = true
          · simp [isColon,blank,token,tokenValue token]
          · by_cases value : isValueByte byte = true <;> simp [isColon,blank,token,value]
    rw [List.zipIdx_cons,List.foldl_cons,step,ih (index + 1) _ (by simpa using behind),List.foldl_cons]
    simp [Bool.or_assoc,Bool.not_and]

/-- The field that the verdict on a line stands for. -/
def verdictField (input : List UInt8) (start : Nat) : LineVerdict → Option HeaderField
  | .invalid _ => none
  | .field span => some ⟨asciiLowercase (slice input start span.nameEnd),slice input span.valueStart span.valueEnd⟩

theorem direct_field {input line tail : List UInt8} {start : Nat} (located : input.drop start = line ++ tail)
    (fits : line.length ≤ trailerBytes) :
    verdictField input start (summarizeAndDecide input start (start + line.length)) = lineField line := by
  unfold summarizeAndDecide summarize
  rw [located_slice located]
  rcases colon_split line with absent | ⟨name,raw,rfl,absent⟩
  · rw [lineField_absent absent,direct_name line absent start _ rfl]
    dsimp only
    split <;> rfl
  · have first : ((name ++ 0x3a :: raw).zipIdx start).foldl observe
        ⟨(name ++ 0x3a :: raw).head?.any isBlank,none,false,false,false,none,start + (name ++ 0x3a :: raw).length⟩ =
        ⟨(name ++ 0x3a :: raw).head?.any isBlank,some (start + name.length),name.any isBlank,name.any fun b => !isBlank b && !isTchar b,
          !raw.all isValueByte,
          ((raw.zipIdx (start + name.length + 1)).foldl (spanStep quiet) (none,start + (name ++ 0x3a :: raw).length)).1,
          ((raw.zipIdx (start + name.length + 1)).foldl (spanStep quiet) (none,start + (name ++ 0x3a :: raw).length)).2⟩ := by
      rw [List.zipIdx_append,List.foldl_append,direct_name name absent start _ rfl,List.zipIdx_cons,List.foldl_cons]
      have step (summary : LineSummary) (before : summary.colon = none) :
          observe summary (0x3a,start + name.length) = { summary with colon := some (start + name.length) } := by
        simp [observe,before,direct_classes]
      rw [step _ rfl,direct_value raw _ _ rfl]
      simp
    rw [first,lineField_split absent]
    dsimp only
    simp only [Option.map_some,Option.getD_some,Nat.add_sub_cancel_left]
    by_cases good : name ≠ [] ∧ name.length ≤ trailerNameBytes ∧ name.all isTchar ∧ raw.all isValueByte
    · rw [if_pos good]
      obtain ⟨filled,short,tokens,values⟩ := good
      obtain ⟨unfolded,unblank,valid⟩ := token_name filled tokens raw
      have content : ∀ b ∈ raw, quiet b = isBlank b := fun b member => by simp [quiet,List.all_eq_true.mp values b member]
      rw [span_congr content,unfolded,unblank,valid,values]
      have some : name.length ≠ 0 := fun zero => filled (List.length_eq_zero_iff.mp zero)
      simp only [Bool.false_eq_true,if_false,Bool.not_true,some,Nat.not_lt.mpr short]
      have within : (trim isBlank raw).length ≤ trailerValueBytes := trim_within fits
      have named := (span_field located (show 0 + 0 ≤ raw.length by omega)).1
      rcases span_trim isBlank raw (start + name.length + 1) (start + (name ++ 0x3a :: raw).length) with
        ⟨empty,folded⟩ | ⟨front,folded,cut,inside⟩
      · simp only [folded,Option.getD_none,Nat.sub_self,Nat.not_lt_zero,gt_iff_lt,if_false,verdictField,asciiLowercase]
        rw [named,name_chars tokens,empty]
        simp [slice]
      · have width : start + name.length + 1 + front + (trim isBlank raw).length - (start + name.length + 1 + front) =
            (trim isBlank raw).length := by omega
        simp only [folded,Option.getD_some,width,Nat.not_lt.mpr within,if_false,verdictField,asciiLowercase]
        have valued := (span_field located inside).2
        rw [show start + (name.length + 1 + front) = start + name.length + 1 + front by omega,
          show start + (name.length + 1 + (front + (trim isBlank raw).length)) =
            start + name.length + 1 + front + (trim isBlank raw).length by omega] at valued
        rw [named,name_chars tokens,valued,cut]
    · rw [if_neg good]
      repeat' split
      all_goals try rfl
      rename_i filled short unblank invalid values _
      refine absurd ⟨?_,Nat.not_lt.mp short,?_,by simpa using values⟩ good
      · rintro rfl
        exact filled rfl
      · rw [List.all_eq_true]
        intro b member
        simp only [List.any_eq_true,not_exists,not_and,Bool.not_eq_true] at unblank invalid
        simpa [unblank b member] using invalid b member

theorem direct_lines {input suffix : List UInt8} {offset : Nat} {lines : Option (List (List UInt8))} (lined : Lined offset suffix lines)
    (located : input.drop offset = suffix) {table names : List (List UInt8)} (same : ∀ name, name ∈ table ↔ name ∈ names)
    (fuel : Nat) (fields : List HeaderField) (enough : trailerFields < fuel + fields.length) (room : fields.length ≤ trailerFields) :
    (TrailerDirectTable.parseFrom input table fuel offset fields).toOption = blockFrom names offset fields lines := by
  induction lined generalizing fuel fields with
  | @failed offset suffix scanned =>
    obtain ⟨fuel,rfl⟩ := Nat.exists_eq_add_one.mpr (show 0 < fuel by omega)
    rw [TrailerDirectTable.parseFrom,toOption_bind,locateLineEnd,direct_locate,located,scanned]
    rfl
  | @ended offset suffix rest scanned =>
    obtain ⟨fuel,rfl⟩ := Nat.exists_eq_add_one.mpr (show 0 < fuel by omega)
    rw [TrailerDirectTable.parseFrom,toOption_bind,locateLineEnd,direct_locate,located,scanned]
    simp [blockFrom,permit,wire]
  | @line offset suffix line rest lines scanned filled lined ih =>
    obtain ⟨fuel,rfl⟩ := Nat.exists_eq_add_one.mpr (show 0 < fuel by omega)
    obtain ⟨here,next,fits⟩ := located_next located scanned
    have longer : line.length ≠ 0 := fun zero => filled (List.length_eq_zero_iff.mp zero)
    have field := direct_field here (show line.length ≤ trailerBytes by omega)
    rw [TrailerDirectTable.parseFrom,toOption_bind,locateLineEnd,direct_locate,located,scanned]
    simp only [Option.map_some,Option.bind_some,Nat.add_eq_left,longer,if_false]
    rw [blockFrom_line,← field]
    by_cases full : fields.length = trailerFields
    · rw [if_pos full,if_pos full]
      rfl
    · rw [if_neg full,if_neg full]
      cases summarizeAndDecide input offset (offset + line.length) with
      | invalid reason => rfl
      | field span =>
        simp only [verdictField,Option.bind_some,toOption_ite,toOption_invalid]
        generalize asciiLowercase (slice input offset span.nameEnd) = name
        generalize slice input span.valueStart span.valueEnd = value
        have step := ih next fuel (fields ++ [⟨name,value⟩]) (by simp; omega) (by simp; omega)
        rw [step]
        apply admits_guards ⟨name,value⟩ Iff.rfl
        · rw [Bool.not_eq_true',← Bool.not_eq_true,List.contains_iff_mem,same]
        · rw [List.any_eq_true,List.mem_map]
          simp only [beq_iff_eq]

theorem direct_section {input : List UInt8} {lines : Option (List (List UInt8))} (lined : Lined 0 input lines) {names : List (List UInt8)}
    (short : Short names) (block : TrailerBlock) :
    TrailerDirectTable.parseTrailerSection input names = .ok block ↔ Declarable names ∧ accepted names lines = some block := by
  rw [accepted_blockFrom,← toOption_iff]
  unfold TrailerDirectTable.parseTrailerSection
  rw [toOption_bind]
  apply checked_iff
  · intro table built
    obtain ⟨declarable,rfl⟩ := (direct_table short).mp built
    exact ⟨declarable,direct_lines lined rfl (Ordered.mem_sort names) _ _ (by decide) (by decide)⟩
  · exact fun declarable => ⟨_,(direct_table short).mpr ⟨declarable,rfl⟩⟩

end DirectTable

section InvariantTrie

open TrailerInvariantTrie

theorem trie_scan (input : List UInt8) (start position : Nat) (suffix : List UInt8) :
    (frameFrom input start position suffix).toOption =
      (nextLine position suffix).bind fun parts =>
        if position + parts.1.length = start then some ⟨input.take start,start + 2⟩
        else (frameFrom input (position + parts.1.length + 2) (position + parts.1.length + 2) parts.2).toOption := by
  induction suffix generalizing position with
  | nil => rfl
  | cons byte bytes ih =>
    conv_lhs => rw [TrailerInvariantTrie.frameFrom.eq_def]
    dsimp only
    by_cases limit : position = trailerBytes
    · rw [if_pos limit,nextLine_limit (by omega)]
      rfl
    · rw [if_neg limit]
      unfold nextLine
      by_cases feed : byte = 0x0a
      · simp [feed]
      · by_cases cr : byte = 0x0d
        · subst cr
          cases bytes with
          | nil => simp
          | cons following rest =>
            by_cases closed : following = 0x0a
            · subst closed
              by_cases fits : position + 2 ≤ trailerBytes
              · by_cases empty : position = start
                · subst empty
                  simp [fits,Nat.not_lt.mpr fits]
                · simp [fits,Nat.not_lt.mpr fits,empty]
              · simp [fits,Nat.not_le.mp fits]
            · simp [closed]
        · simp only [feed,cr,beq_iff_eq,if_false,bne_iff_ne,ne_eq,not_false_eq_true,if_true]
          rw [ih]
          cases nextLine (position + 1) bytes with
          | none => rfl
          | some parts =>
            simp only [Option.map_some,Option.bind_some,List.length_cons]
            rw [show position + 1 + parts.1.length = position + (parts.1.length + 1) by omega]

theorem trie_frame {offset : Nat} {suffix : List UInt8} {lines : Option (List (List UInt8))} (lined : Lined offset suffix lines)
    (input : List UInt8) :
    (frameFrom input offset offset suffix).toOption =
      lines.map fun lines => ⟨input.take (offset + (wire lines).length),offset + (wire lines).length + 2⟩ := by
  induction lined with
  | failed scanned =>
    rw [trie_scan,scanned]
    rfl
  | ended scanned =>
    rw [trie_scan,scanned]
    simp [wire]
  | @line offset suffix line rest lines scanned filled _ ih =>
    have longer : line.length ≠ 0 := fun zero => filled (List.length_eq_zero_iff.mp zero)
    rw [trie_scan,scanned]
    simp only [Option.bind_some,Nat.add_eq_left,longer,if_false]
    rw [ih,Option.map_map]
    congr 1
    funext lines
    simp only [Function.comp_apply,wire_length]
    rw [show offset + line.length + 2 + (wire lines).length = offset + (line.length + 2 + (wire lines).length) by omega]

theorem trie_line (line : List UInt8) :
    (validateLine line).toOption.map (fun parts => (⟨collectChars (parts.1.map toAsciiLowercase),trimValue parts.2⟩ : HeaderField)) =
      lineField line := by
  have trims (raw : List UInt8) : trimValue raw = trim isBlank raw := trim_positions isBlank raw
  unfold validateLine
  rcases colon_split line with absent | ⟨name,raw,rfl,absent⟩
  · rw [lineField_absent absent,colon_absent absent]
    split <;> rfl
  · rw [lineField_split absent,colon_position absent]
    dsimp only
    rw [take_hit,drop_hit]
    by_cases good : name ≠ [] ∧ name.length ≤ trailerNameBytes ∧ name.all isTchar ∧ raw.all isValueByte
    · rw [if_pos good]
      obtain ⟨filled,short,tokens,values⟩ := good
      obtain ⟨unfolded,unblank,-⟩ := token_name filled tokens raw
      rw [unfolded,unblank,tokens,values]
      have within : ¬ name.length > trailerNameBytes := Nat.not_lt.mpr short
      simp only [List.isEmpty_eq_false_iff.mpr filled,within,decide_false,Bool.or_self,Bool.false_eq_true,if_false,Bool.not_true,
        toOption_ok,Option.map_some,name_chars tokens,trims]
    · rw [if_neg good]
      repeat' split
      all_goals try rfl
      rename_i sized unblank tokens values
      simp only [Bool.or_eq_true,List.isEmpty_iff,decide_eq_true_eq,not_or] at sized
      exact absurd ⟨sized.1,Nat.not_lt.mp sized.2,by simpa using tokens,by simpa using values⟩ good

theorem cr_position {line : List UInt8} (whole : Whole line) (tail : List UInt8) :
    position (· == 0x0d) (line ++ 0x0d :: tail) = some line.length := by
  apply position_append
  · intro b member
    exact beq_eq_false_iff_ne.mpr (whole.2 b member).1
  · rfl

theorem trie_fields {names : List (List UInt8)} (lines : List (List UInt8)) (whole : ∀ line ∈ lines, Whole line) (fuel : Nat)
    (fields : List HeaderField) (enough : trailerFields < fuel + fields.length) (room : fields.length ≤ trailerFields)
    {trie : DeclaredNames} (represents : Represents trie names (fields.map (·.name))) :
    (validateFrom fields trie fuel (wire lines)).toOption = permit names fields lines := by
  induction lines generalizing fuel fields trie with
  | nil =>
    obtain ⟨fuel,rfl⟩ := Nat.exists_eq_add_one.mpr (show 0 < fuel by omega)
    rfl
  | cons line lines ih =>
    obtain ⟨fuel,rfl⟩ := Nat.exists_eq_add_one.mpr (show 0 < fuel by omega)
    have first := whole line (by simp)
    have filled : (line ++ 0x0d :: 0x0a :: wire lines).isEmpty = false := by simp
    have behind : (line ++ 0x0d :: 0x0a :: wire lines).drop (line.length + 2) = wire lines := by simp
    rw [wire_cons,validateFrom,permit,filled,← trie_line line,cr_position first]
    simp only [Bool.false_eq_true,if_false,Option.getD_some,take_hit,behind]
    by_cases full : fields.length = trailerFields
    · simp [full]
    · simp only [full,if_false,toOption_bind]
      cases (validateLine line).toOption with
      | none => rfl
      | some parts =>
        simp only [Option.bind_some,Option.map_some]
        obtain ⟨refused,taken⟩ := accept_received represents (collectChars (parts.1.map toAsciiLowercase))
        generalize collectChars (parts.1.map toAsciiLowercase) = name at refused taken
        by_cases admits : Admits names fields ⟨name,trimValue parts.2⟩
        · obtain ⟨after,accepts,represents'⟩ := taken admits
          rw [accepts,if_pos admits,toOption_ok,Option.bind_some]
          apply ih (fun other member => whole other (by simp [member])) fuel _ (by simp; omega) (by simp; omega)
          simpa using represents'
        · obtain ⟨error,fails⟩ := refused admits
          rw [fails,if_neg admits]
          rfl

theorem lined_wire {input : List UInt8} {lines : List (List UInt8)} (lined : Lined 0 input (some lines)) :
    input.take (wire lines).length = wire lines ∧ ∀ line ∈ lines, Whole line ∧ line.length ≤ trailerBytes := by
  obtain ⟨rest,split,whole,fits⟩ := (lined_iff 0 input lines).mp lined
  refine ⟨by rw [split,List.take_left],?_⟩
  intro line member
  have inside := wire_within member
  exact ⟨whole line member,by omega⟩

theorem trie_section {input : List UInt8} {lines : Option (List (List UInt8))} (lined : Lined 0 input lines) {names : List (List UInt8)}
    (block : TrailerBlock) :
    TrailerInvariantTrie.parseTrailerSection input names = .ok block ↔ Declarable names ∧ accepted names lines = some block := by
  obtain ⟨sound,complete⟩ := trie_table names
  rw [← toOption_iff]
  unfold TrailerInvariantTrie.parseTrailerSection frameSection
  rw [toOption_bind,trie_frame lined]
  simp only [Nat.zero_add,Option.bind_map,accepted]
  cases lines with
  | none => simp
  | some lines =>
    obtain ⟨start,whole⟩ := lined_wire lined
    simp only [Option.bind_some,Function.comp_apply,start,toOption_bind]
    apply checked_iff
    · intro trie built
      obtain ⟨declarable,represents⟩ := sound trie built
      refine ⟨declarable,?_⟩
      rw [trie_fields lines (fun line member => (whole line member).1) _ [] (by decide) (by decide) represents]
      cases permit names [] lines <;> rfl
    · exact complete

end InvariantTrie

section TransitionPhases

open TrailerTransitionPhases

theorem phases_past (size offset : Nat) (state : ScanState) (spans : List LineSpan) (bytes : List UInt8) (past : trailerBytes ≤ offset) :
    (scanFrom size state offset spans bytes).toOption = none := by
  cases bytes with
  | nil =>
    rw [scanFrom,toOption_ite]
    simp
  | cons byte bytes =>
    rw [scanFrom.eq_def]
    dsimp only
    rw [if_pos past]
    rfl

theorem phases_rest (size start position : Nat) (spans : List LineSpan) (suffix : List UInt8) :
    (scanFrom size (.lineBytes start) position spans suffix).toOption =
      (nextLine position suffix).bind fun parts =>
        (scanFrom size .lineStart (position + parts.1.length + 2) (retain spans ⟨start,position + parts.1.length⟩) parts.2).toOption := by
  induction suffix generalizing position with
  | nil =>
    rw [scanFrom,toOption_ite]
    simp [nextLine]
  | cons byte bytes ih =>
    by_cases past : trailerBytes ≤ position
    · rw [phases_past size position _ spans _ past,nextLine_limit (by omega)]
      rfl
    · conv_lhs => rw [scanFrom.eq_def]
      dsimp only
      rw [if_neg past]
      unfold nextLine
      by_cases cr : byte = 0x0d
      · subst cr
        cases bytes with
        | nil => simp
        | cons following rest =>
          by_cases closed : following = 0x0a
          · subst closed
            by_cases fits : position + 2 ≤ trailerBytes
            · simp [fits]
            · simp [fits,phases_past size (position + 2) _ _ rest (by omega)]
          · simp [closed]
      · by_cases feed : byte = 0x0a
        · simp [feed]
        · simp only [feed,cr,beq_iff_eq,if_false]
          rw [ih]
          cases nextLine (position + 1) bytes with
          | none => rfl
          | some parts =>
            simp only [Option.map_some,Option.bind_some,List.length_cons]
            rw [show position + 1 + parts.1.length = position + (parts.1.length + 1) by omega]

theorem phases_scan (size position : Nat) (spans : List LineSpan) (suffix : List UInt8) :
    (scanFrom size .lineStart position spans suffix).toOption =
      (nextLine position suffix).bind fun parts =>
        if parts.1 = [] then some ⟨spans,position + 2⟩
        else (scanFrom size .lineStart (position + parts.1.length + 2) (retain spans ⟨position,position + parts.1.length⟩) parts.2).toOption := by
  cases suffix with
  | nil =>
    rw [scanFrom,toOption_ite]
    simp [nextLine]
  | cons byte bytes =>
    by_cases past : trailerBytes ≤ position
    · rw [phases_past size position _ spans _ past,nextLine_limit (by omega)]
      rfl
    · conv_lhs => rw [scanFrom.eq_def]
      dsimp only
      rw [if_neg past]
      unfold nextLine
      by_cases cr : byte = 0x0d
      · subst cr
        cases bytes with
        | nil => simp
        | cons following rest =>
          by_cases closed : following = 0x0a
          · subst closed
            by_cases fits : position + 2 ≤ trailerBytes
            · simp [fits,Nat.not_lt.mpr fits]
            · simp [fits,Nat.not_le.mp fits]
          · simp [closed]
      · by_cases feed : byte = 0x0a
        · simp [feed]
        · simp only [feed,cr,beq_iff_eq,if_false]
          rw [phases_rest]
          cases nextLine (position + 1) bytes with
          | none => rfl
          | some parts =>
            simp only [Option.map_some,Option.bind_some,List.length_cons,reduceCtorEq,if_false]
            rw [show position + 1 + parts.1.length = position + (parts.1.length + 1) by omega]

/-- The spans of lines from an offset on. -/
def spansFrom (offset : Nat) : List (List UInt8) → List LineSpan
  | [] => []
  | line :: lines => ⟨offset,offset + line.length⟩ :: spansFrom (offset + line.length + 2) lines

theorem take_front {α : Type} (count : Nat) (front back : List α) : (front.take count ++ back).take count = (front ++ back).take count := by
  rw [List.take_append,List.take_append,List.take_take,Nat.min_self,List.length_take]
  congr 2
  omega

theorem retain_take (spans : List LineSpan) (span : LineSpan) (room : spans.length ≤ trailerFields + 1) :
    retain spans span = (spans ++ [span]).take (trailerFields + 1) := by
  unfold retain
  split
  · rw [List.take_of_length_le (by simp; omega)]
  · rw [List.take_append_of_le_length (by omega),List.take_of_length_le (by omega)]

theorem phases_frame {offset : Nat} {suffix : List UInt8} {lines : Option (List (List UInt8))} (lined : Lined offset suffix lines)
    (size : Nat) (spans : List LineSpan) (room : spans.length ≤ trailerFields + 1) :
    (scanFrom size .lineStart offset spans suffix).toOption =
      lines.map fun lines => ⟨(spans ++ spansFrom offset lines).take (trailerFields + 1),offset + (wire lines).length + 2⟩ := by
  induction lined generalizing spans with
  | failed scanned =>
    rw [phases_scan,scanned]
    rfl
  | ended scanned =>
    rw [phases_scan,scanned]
    simp [wire,spansFrom,List.take_of_length_le room]
  | @line offset suffix line rest lines scanned filled _ ih =>
    rw [phases_scan,scanned]
    simp only [Option.bind_some,filled,if_false]
    rw [retain_take spans _ room,ih _ (by simp),Option.map_map]
    congr 1
    funext lines
    simp only [Function.comp_apply,wire_length,spansFrom]
    rw [show offset + line.length + 2 + (wire lines).length = offset + (line.length + 2 + (wire lines).length) by omega]
    rw [take_front,List.append_assoc,List.singleton_append]

theorem phases_line (line : List UInt8) : (parseField line).toOption = lineField line := by
  unfold parseField
  rcases colon_split line with absent | ⟨name,raw,rfl,absent⟩
  · rw [lineField_absent absent,colon_absent absent]
    split <;> rfl
  · rw [lineField_split absent,colon_position absent]
    dsimp only
    rw [take_hit,drop_hit]
    have negated : (raw.any fun byte => !isValueByte byte) = !raw.all isValueByte := by
      rw [List.all_eq_not_any_not,Bool.not_not]
    rw [negated,trim_positions isBlank raw]
    by_cases good : name ≠ [] ∧ name.length ≤ trailerNameBytes ∧ name.all isTchar ∧ raw.all isValueByte
    · rw [if_pos good]
      obtain ⟨filled,short,tokens,values⟩ := good
      obtain ⟨unfolded,unblank,-⟩ := token_name filled tokens raw
      have closed : name.getLast?.any isBlank = false := by
        rw [List.getLast?_eq_some_getLast filled]
        simpa using List.any_eq_false.mp unblank _ (List.getLast_mem filled)
      rw [unfolded,closed,tokens,values]
      have within : ¬ name.length > trailerNameBytes := Nat.not_lt.mpr short
      simp only [List.isEmpty_eq_false_iff.mpr filled,within,decide_false,Bool.or_self,Bool.false_eq_true,if_false,Bool.not_true,
        toOption_ok,name_chars tokens]
    · rw [if_neg good]
      repeat' split
      all_goals try rfl
      rename_i sized values
      simp only [Bool.or_eq_true,List.isEmpty_iff,decide_eq_true_eq,not_or] at sized
      exact absurd ⟨sized.1.1,Nat.not_lt.mp sized.1.2,by simpa using sized.2,by simpa using values⟩ good

theorem phases_authorize {table names : List (List UInt8)} (sorted : table.Pairwise (· ≤ ·)) (same : ∀ name, name ∈ table ↔ name ∈ names)
    (field : HeaderField) (earlier : List HeaderField) :
    (authorizeField field table (earlier.map (·.name))).toOption = if Admits names earlier field then some () else none := by
  unfold authorizeField
  simp only [toOption_ite,toOption_invalid,toOption_ok]
  apply admits_guards field Iff.rfl
  · rw [← same,← Ordered.binarySearch_mem sorted field.name]
    simp
  · rw [List.contains_iff_mem]

theorem phases_fields {input suffix : List UInt8} {offset : Nat} {table names : List (List UInt8)} (sorted : table.Pairwise (· ≤ ·))
    (same : ∀ name, name ∈ table ↔ name ∈ names) (lines : List (List UInt8)) (located : input.drop offset = wire lines ++ suffix)
    (fields : List HeaderField) (room : fields.length ≤ trailerFields) :
    (fieldsFrom input table fields.length fields ((spansFrom offset lines).take (trailerFields + 1 - fields.length))).toOption =
      permit names fields lines := by
  induction lines generalizing offset fields with
  | nil => simp [spansFrom,fieldsFrom,permit]
  | cons line lines ih =>
    rw [wire_cons,List.append_assoc,List.cons_append,List.cons_append] at located
    have next : input.drop (offset + line.length + 2) = wire lines ++ suffix := by
      rw [Nat.add_assoc,← List.drop_drop,located,← List.drop_drop,List.drop_left]
      rfl
    rw [spansFrom,show trailerFields + 1 - fields.length = (trailerFields - fields.length) + 1 by omega,List.take_succ_cons,fieldsFrom,permit]
    by_cases full : fields.length = trailerFields
    · simp [full]
    · simp only [full,if_false,toOption_bind,located_slice located,phases_line]
      cases lineField line with
      | none => rfl
      | some field =>
        simp only [Option.bind_some,phases_authorize sorted same]
        by_cases admits : Admits names fields field
        · rw [if_pos admits,if_pos admits,Option.bind_some]
          have step := ih next (fields ++ [field]) (by simp; omega)
          rw [List.length_append,List.length_singleton,
            show trailerFields + 1 - (fields.length + 1) = trailerFields - fields.length by omega] at step
          exact step
        · rw [if_neg admits,if_neg admits,Option.bind_none]

theorem phases_section {input : List UInt8} {lines : Option (List (List UInt8))} (lined : Lined 0 input lines) {names : List (List UInt8)}
    (short : Short names) (block : TrailerBlock) :
    TrailerTransitionPhases.parseTrailerSection input names = .ok block ↔ Declarable names ∧ accepted names lines = some block := by
  rw [← toOption_iff]
  unfold TrailerTransitionPhases.parseTrailerSection scanSection
  rw [toOption_bind,phases_frame lined _ [] (by decide)]
  simp only [Nat.zero_add,Option.bind_map,accepted]
  cases lines with
  | none => simp
  | some lines =>
    obtain ⟨rest,split,_⟩ := (lined_iff 0 input lines).mp lined
    simp only [Option.bind_some,Function.comp_apply,toOption_bind,List.nil_append]
    apply checked_iff
    · intro table built
      obtain ⟨declarable,rfl⟩ := (phases_table short).mp built
      refine ⟨declarable,?_⟩
      have read := phases_fields (Ordered.pairwise_sort names) (Ordered.mem_sort names) lines (show input.drop 0 = _ from split) []
        (by decide)
      rw [List.length_nil,Nat.sub_zero] at read
      rw [read]
      cases permit names [] lines <;> rfl
    · exact fun declarable => ⟨_,(phases_table short).mpr ⟨declarable,rfl⟩⟩

end TransitionPhases

section ValidatedInvariants

open TrailerValidatedInvariants

theorem splitInclusive_hit {before : List UInt8} (absent : 0x0a ∉ before) (after : List UInt8) :
    splitInclusive 0x0a (before ++ 0x0a :: after) = (before ++ [0x0a]) :: splitInclusive 0x0a after := by
  induction before with
  | nil => simp [splitInclusive]
  | cons byte before ih =>
    have differ : (byte == 0x0a) = false := by
      rw [beq_eq_false_iff_ne]
      rintro rfl
      exact absent (by simp)
    rw [List.cons_append,splitInclusive,differ,ih fun member => absent (by simp [member])]
    rfl

theorem splitInclusive_miss {text : List UInt8} (absent : 0x0a ∉ text) (filled : text ≠ []) : splitInclusive 0x0a text = [text] := by
  induction text with
  | nil => exact absurd rfl filled
  | cons byte text ih =>
    have differ : (byte == 0x0a) = false := by
      rw [beq_eq_false_iff_ne]
      rintro rfl
      exact absent (by simp)
    rw [splitInclusive,differ]
    by_cases last : text = []
    · subst last
      rfl
    · rw [ih (fun member => absent (by simp [member])) last]
      rfl

theorem crPlace_some (start : Nat) {index : Nat} {before : List UInt8} (inside : index < before.length - 1) (here : before[index]? = some 0x0d) :
    (before.zipIdx.find? fun (byte,offset) =>
      byte == 0x0d && decide (start + offset + 1 < start + (before.length + 1) - 1)).isSome := by
  rw [List.find?_isSome]
  refine ⟨(0x0d,index),List.mem_zipIdx_iff_getElem?.mpr here,?_⟩
  simp only [beq_self_eq_true,Bool.true_and,decide_eq_true_eq]
  omega

theorem earlierCr_iff {start : Nat} {before : List UInt8} (fits : start + before.length ≤ trailerBytes) :
    (earlierCr start (before ++ [0x0a])).any (· < trailerBytes) ↔ 0x0d ∈ before.dropLast := by
  unfold earlierCr
  simp only [List.dropLast_concat,List.length_append,List.length_singleton]
  rw [Option.any_eq_true]
  constructor
  · rintro ⟨place,found,_⟩
    obtain ⟨⟨byte,index⟩,hit,rfl⟩ := Option.map_eq_some_iff.mp found
    have test := List.find?_some hit
    have member := List.mem_of_find?_eq_some hit
    simp only [Bool.and_eq_true,beq_iff_eq,decide_eq_true_eq] at test
    obtain ⟨rfl,inside⟩ := test
    rw [List.mem_zipIdx_iff_getElem?] at member
    rw [List.mem_iff_getElem?]
    refine ⟨index,?_⟩
    rw [List.getElem?_dropLast,if_pos (by omega)]
    exact member
  · intro member
    obtain ⟨index,here⟩ := List.mem_iff_getElem?.mp member
    rw [List.getElem?_dropLast] at here
    split at here
    · rename_i inside
      obtain ⟨⟨byte,place⟩,hit⟩ := Option.isSome_iff_exists.mp (crPlace_some start inside here)
      have test := List.find?_some hit
      simp only [Bool.and_eq_true,decide_eq_true_eq] at test
      rw [hit]
      exact ⟨start + place,rfl,by simp only [decide_eq_true_eq]; omega⟩
    · cases here

theorem invariants_scan (input : List UInt8) (offset : Nat) (suffix : List UInt8) :
    (boundaryFrom input offset (splitInclusive 0x0a (suffix.take (trailerBytes + 1 - offset)))).toOption =
      (nextLine offset suffix).bind fun parts =>
        if parts.1 = [] then some ⟨input.take offset,offset + 2⟩
        else (boundaryFrom input (offset + parts.1.length + 2)
          (splitInclusive 0x0a (parts.2.take (trailerBytes + 1 - (offset + parts.1.length + 2))))).toOption := by
  cases scanned : nextLine offset suffix with
  | some parts =>
    obtain ⟨line,rest⟩ := parts
    obtain ⟨rfl,inner,fits⟩ := (nextLine_iff _ _ _ _).mp scanned
    have cut : (line ++ 0x0d :: 0x0a :: rest).take (trailerBytes + 1 - offset) =
        (line ++ [0x0d]) ++ 0x0a :: rest.take (trailerBytes + 1 - (offset + line.length + 2)) := by
      rw [List.take_append,List.take_of_length_le (by omega),
        show trailerBytes + 1 - offset - line.length = trailerBytes + 1 - (offset + line.length + 2) + 2 by omega]
      simp
    have absent : 0x0a ∉ line ++ [0x0d] := by
      intro member
      rcases List.mem_append.mp member with inside | last
      · exact (inner _ inside).2 rfl
      · simp at last
    have early : ¬ (earlierCr offset (line ++ [0x0d] ++ [0x0a])).any (· < trailerBytes) = true := by
      rw [earlierCr_iff (by simp; omega),List.dropLast_concat]
      exact fun member => (inner _ member).1 rfl
    have width : (line ++ [0x0d] ++ [0x0a]).length = line.length + 2 := by simp
    have final : (line ++ [0x0d] ++ [0x0a]).getLast? = some 0x0a := by simp
    have control : (line ++ [0x0d] ++ [0x0a]).dropLast.getLast? = some 0x0d := by simp
    rw [cut,splitInclusive_hit absent,boundaryFrom]
    simp only [final,control,width,early,bne_self_eq_false,Bool.false_eq_true,if_false,Option.bind_some]
    rw [if_neg (show ¬ offset + (line.length + 2) > trailerBytes by omega)]
    by_cases empty : line = []
    · subst empty
      simp
    · have longer : line.length ≠ 0 := fun zero => empty (List.length_eq_zero_iff.mp zero)
      rw [if_neg (by omega),if_neg empty,Nat.add_assoc]
  | none =>
    have whole := List.take_append_drop (trailerBytes + 1 - offset) suffix
    have size : (suffix.take (trailerBytes + 1 - offset)).length ≤ trailerBytes + 1 - offset := List.length_take_le _ _
    generalize suffix.take (trailerBytes + 1 - offset) = text at whole size
    rw [Option.bind_none]
    rcases first_hit (· == (0x0a : UInt8)) text with miss | ⟨before,hit,after,rfl,miss,found⟩
    · have absent : 0x0a ∉ text := fun member => by simpa using miss 0x0a member
      by_cases filled : text = []
      · subst filled
        rw [splitInclusive,boundaryFrom,toOption_ite]
        simp
      · have last : (text.getLast? != some 0x0a) = true := by
          rw [bne_iff_ne]
          intro same
          exact absent (List.mem_of_getLast? same)
        rw [splitInclusive_miss absent filled,boundaryFrom,last]
        simp [toOption_ite]
    · obtain rfl : hit = 0x0a := by simpa using found
      have absent : 0x0a ∉ before := fun member => by simpa using miss 0x0a member
      simp only [List.length_append,List.length_cons] at size
      have width : (before ++ [0x0a]).length = before.length + 1 := by simp
      have final : (before ++ [0x0a]).getLast? = some 0x0a := by simp
      rw [splitInclusive_hit absent,boundaryFrom]
      simp only [final,width,List.dropLast_concat,bne_self_eq_false,Bool.false_eq_true,if_false,toOption_ite,toOption_invalid,toOption_limit]
      by_cases early : 0x0d ∈ before.dropLast
      · rw [if_pos ((earlierCr_iff (by omega)).mpr early)]
      · rw [if_neg (mt (earlierCr_iff (by omega)).mp early)]
        by_cases limit : offset + (before.length + 1) > trailerBytes
        · rw [if_pos limit]
        · rw [if_neg limit]
          by_cases control : before.getLast? = some 0x0d
          · obtain ⟨line,rfl⟩ := List.getLast?_eq_some_iff.mp control
            rw [List.dropLast_concat] at early
            have scanned' := (nextLine_iff offset suffix line (after ++ suffix.drop (trailerBytes + 1 - offset))).mpr ⟨?_,?_,?_⟩
            · rw [scanned] at scanned'
              cases scanned'
            · simpa using whole.symm
            · intro b member
              refine ⟨?_,?_⟩
              · rintro rfl
                exact early member
              · rintro rfl
                exact absent (by simp [member])
            · simp only [List.length_append,List.length_singleton] at limit
              omega
          · rw [if_pos (by simpa using control)]

theorem invariants_frame {offset : Nat} {suffix : List UInt8} {lines : Option (List (List UInt8))} (lined : Lined offset suffix lines)
    (input : List UInt8) :
    (boundaryFrom input offset (splitInclusive 0x0a (suffix.take (trailerBytes + 1 - offset)))).toOption =
      lines.map fun lines => ⟨input.take (offset + (wire lines).length),offset + (wire lines).length + 2⟩ := by
  induction lined with
  | failed scanned =>
    rw [invariants_scan,scanned]
    rfl
  | ended scanned =>
    rw [invariants_scan,scanned]
    simp [wire]
  | @line offset suffix line rest lines scanned filled _ ih =>
    rw [invariants_scan,scanned]
    simp only [Option.bind_some,filled,if_false]
    rw [ih,Option.map_map]
    congr 1
    funext lines
    simp only [Function.comp_apply,wire_length]
    rw [show offset + line.length + 2 + (wire lines).length = offset + (line.length + 2 + (wire lines).length) by omega]

theorem invariants_split (lines : List (List UInt8)) (whole : ∀ line ∈ lines, Whole line) :
    ((wire lines).splitOn 0x0a).dropLast = lines.map (· ++ [0x0d]) := by
  induction lines with
  | nil => rfl
  | cons line lines ih =>
    have first := whole line (by simp)
    have absent : 0x0a ∉ line ++ [0x0d] := by
      intro member
      rcases List.mem_append.mp member with inside | last
      · exact (first.2 _ inside).2 rfl
      · simp at last
    rw [wire_cons,show line ++ 0x0d :: 0x0a :: wire lines = (line ++ [0x0d]) ++ 0x0a :: wire lines by simp,
      List.splitOn_append_cons_self_of_not_mem absent,List.dropLast_cons_of_ne_nil (List.splitOn_ne_nil _ _),
      ih fun other member => whole other (by simp [member]),List.map_cons]

theorem invariants_line (line : List UInt8) : ((validateFieldGrammar line).toOption.map buildField) = lineField line := by
  unfold validateFieldGrammar
  rcases colon_split line with absent | ⟨name,raw,rfl,absent⟩
  · rw [lineField_absent absent,colon_absent absent]
    split <;> rfl
  · rw [lineField_split absent,colon_position absent]
    dsimp only
    rw [take_hit,drop_hit]
    by_cases good : name ≠ [] ∧ name.length ≤ trailerNameBytes ∧ name.all isTchar ∧ raw.all isValueByte
    · rw [if_pos good]
      obtain ⟨filled,short,tokens,values⟩ := good
      obtain ⟨unfolded,unblank,-⟩ := token_name filled tokens raw
      rw [unfolded,unblank,tokens,values]
      have within : ¬ name.length > trailerNameBytes := Nat.not_lt.mpr short
      simp only [List.isEmpty_eq_false_iff.mpr filled,within,decide_false,Bool.or_self,Bool.false_eq_true,if_false,Bool.not_true,
        toOption_ok,Option.map_some,buildField,name_chars tokens]
      have cut := (trim_saturating isBlank raw).1
      dsimp only at cut
      rw [show (raw.takeWhile isBlank).length + (raw.length - ((raw.takeWhile isBlank).length + (raw.reverse.takeWhile isBlank).length)) =
        max (raw.length - (raw.reverse.takeWhile isBlank).length) (raw.takeWhile isBlank).length by omega] at cut
      rw [cut]
    · rw [if_neg good]
      repeat' split
      all_goals try rfl
      rename_i sized unblank tokens values
      simp only [Bool.or_eq_true,List.isEmpty_iff,decide_eq_true_eq,not_or] at sized
      exact absurd ⟨sized.1,Nat.not_lt.mp sized.2,by simpa using tokens,by simpa using values⟩ good

theorem cmp_flipped (left right : List UInt8) :
    (@cmp (List UInt8) List.instLT (fun a b => List.decidableLT a b) left right).swap =
      @cmp (List UInt8) Preorder.toLT (fun a b => LinearOrder.toDecidableLT a b) right left := by
  rw [← @cmp_swap (List UInt8) _ (fun a b => LinearOrder.toDecidableLT a b)]
  unfold cmp cmpUsing
  congr

theorem search_lowered {table : List (List UInt8)} (sorted : table.Pairwise (· ≤ ·)) (name : List UInt8) :
    (Ordered.binarySearchBy (fun declared => (cmp (name.map toAsciiLowercase) declared).swap) table).isSome ↔
      name.map toAsciiLowercase ∈ table := by
  rw [funext (cmp_flipped (name.map toAsciiLowercase))]
  exact Ordered.binarySearch_mem sorted _

theorem invariants_built {line : List UInt8} {field : PermittedField} (read : validateFieldGrammar line = .ok field) :
    (buildField field).name = field.name.map toAsciiLowercase := by
  apply name_chars
  unfold validateFieldGrammar at read
  split at read
  · cases read
  · split at read
    · cases read
    · dsimp only at read
      repeat' split at read
      all_goals cases read
      rename_i tokens _
      simpa using tokens

theorem invariants_fields {table names : List (List UInt8)} (sorted : table.Pairwise (· ≤ ·)) (same : ∀ name, name ∈ table ↔ name ∈ names)
    (lines : List (List UInt8)) (fields : List PermittedField) (room : fields.length ≤ trailerFields)
    (built : ∀ field ∈ fields, (buildField field).name = field.name.map toAsciiLowercase) :
    (permitFrom table fields (lines.map (· ++ [0x0d]))).toOption.map (List.map buildField) = permit names (fields.map buildField) lines := by
  induction lines generalizing fields with
  | nil => rfl
  | cons line lines ih =>
    rw [List.map_cons,permitFrom,permit,List.length_map,List.dropLast_concat,← invariants_line line]
    by_cases full : fields.length = trailerFields
    · simp [full]
    · simp only [full,if_false,toOption_bind]
      cases read : validateFieldGrammar line with
      | error error => rfl
      | ok field =>
        have named := invariants_built read
        have checked : (authorizeField field.name table fields).toOption =
            if Admits names (fields.map buildField) (buildField field) then some () else none := by
          unfold authorizeField
          simp only [toOption_ite,toOption_invalid,toOption_ok]
          apply admits_guards (buildField field)
          · rw [forbidden_invariants,named]
          · rw [named,← same,← search_lowered sorted]
            rw [Bool.not_eq_true',contains,Bool.not_eq_true]
          · rw [List.any_eq_true,named,List.map_map,List.mem_map]
            refine exists_congr fun other => and_congr_right fun member => ?_
            rw [eqIgnoreAsciiCase_iff,Function.comp_apply,built other member]
        simp only [toOption_ok,Option.bind_some,Option.map_some,checked]
        by_cases admits : Admits names (fields.map buildField) (buildField field)
        · rw [if_pos admits,if_pos admits,Option.bind_some,ih (fields ++ [field]) (by simp; omega)]
          · simp
          · intro other member
            rcases List.mem_append.mp member with old | new
            · exact built other old
            · rw [List.mem_singleton.mp new]
              exact named
        · rw [if_neg admits,if_neg admits]
          rfl

theorem invariants_section {input : List UInt8} {lines : Option (List (List UInt8))} (lined : Lined 0 input lines) {names : List (List UInt8)}
    (short : Short names) (block : TrailerBlock) :
    TrailerValidatedInvariants.parseTrailerSection input names = .ok block ↔ Declarable names ∧ accepted names lines = some block := by
  rw [← toOption_iff]
  unfold TrailerValidatedInvariants.parseTrailerSection establishSectionBoundary
  rw [toOption_bind,show trailerBytes + 1 = trailerBytes + 1 - 0 from rfl,invariants_frame lined]
  simp only [Nat.zero_add,Option.bind_map,accepted]
  cases lines with
  | none => simp
  | some lines =>
    obtain ⟨start,whole⟩ := lined_wire lined
    simp only [Option.bind_some,Function.comp_apply,start,toOption_bind]
    apply checked_iff
    · intro table built
      obtain ⟨declarable,rfl⟩ := (invariants_table short).mp built
      refine ⟨declarable,?_⟩
      have read := invariants_fields (Ordered.pairwise_sort names) (Ordered.mem_sort names) lines [] (by decide) (by simp)
      rw [List.map_nil] at read
      rw [validateAndPermitFields,invariants_split lines fun line member => (whole line member).1,← read]
      cases (permitFrom (Ordered.sort names) [] (lines.map (· ++ [0x0d]))).toOption <;> rfl
    · exact fun declarable => ⟨_,(invariants_table short).mpr ⟨declarable,rfl⟩⟩

end ValidatedInvariants

section EventAutomaton

open TrailerEventAutomaton

/-- One byte inside a line. -/
def consume (state : MachineState) (observed : UInt8 × Nat) : MachineState :=
  match state with
  | .name facts => consumeName facts observed.2 observed.1
  | .value facts => .value (consumeValue facts observed.2 observed.1)
  | other => other

/-- The line that a state inside it stands for. -/
def rawOf : MachineState → Option RawLine
  | .name facts => some (.missingColon facts)
  | .value facts => some (.complete facts)
  | _ => none

/-- The state behind the bytes of a line. -/
def lineState (offset : Nat) (line : List UInt8) : MachineState :=
  (line.zipIdx offset).foldl consume (.name ⟨offset,0,line.head?.any isBlank,false,false⟩)

theorem consume_inside {state : MachineState} {raw : RawLine} (inside : rawOf state = some raw) (observed : UInt8 × Nat) :
    ∃ later, rawOf (consume state observed) = some later := by
  cases state with
  | lineStart => cases inside
  | name facts =>
    unfold consume consumeName
    dsimp only
    split
    · exact ⟨_,rfl⟩
    · exact ⟨_,rfl⟩
  | value facts => exact ⟨_,rfl⟩
  | needLineFeed pending => cases inside

theorem transition_inside {state : MachineState} {raw : RawLine} (inside : rawOf state = some raw) (index : Nat) (byte : UInt8) :
    transition state index byte =
      if byte = 0x0d then .ok (.advance (.needLineFeed (.field raw)))
      else if byte = 0x0a then invalidTrailer "bare_line_ending"
      else .ok (.advance (consume state (byte,index))) := by
  cases state with
  | lineStart => cases inside
  | name facts =>
    cases inside
    simp only [transition,beq_iff_eq]
    rfl
  | value facts =>
    cases inside
    simp only [transition,beq_iff_eq]
    rfl
  | needLineFeed pending => cases inside

theorem automaton_limit (state : MachineState) (raws : List RawLine) (bytes : List UInt8) :
    (runFrom state trailerBytes raws bytes).toOption = none := by
  cases bytes with
  | nil =>
    unfold runFrom endOfInput
    split <;> rfl
  | cons byte bytes =>
    unfold runFrom
    rw [if_pos rfl]
    rfl

theorem automaton_feed (position : Nat) (raws : List RawLine) (raw : RawLine) (bytes : List UInt8) :
    (runFrom (.needLineFeed (.field raw)) position raws bytes).toOption =
      if bytes.head? = some 0x0a ∧ position ≠ trailerBytes then
        if raws.length = trailerFields then none else (runFrom .lineStart (position + 1) (raws ++ [raw]) bytes.tail).toOption
      else none := by
  by_cases limit : position = trailerBytes
  · subst limit
    rw [automaton_limit]
    simp
  · cases bytes with
    | nil => rfl
    | cons byte bytes =>
      rw [runFrom,if_neg limit]
      by_cases feed : byte = 0x0a
      · subst feed
        simp only [transition,beq_self_eq_true,if_true,List.head?_cons,List.tail_cons,limit,ne_eq,not_false_eq_true,and_self,toOption_ite,
          toOption_invalid]
      · simp [transition,feed,invalidTrailer]

theorem automaton_terminator (position : Nat) (raws : List RawLine) (bytes : List UInt8) :
    (runFrom (.needLineFeed .terminator) position raws bytes).toOption =
      if bytes.head? = some 0x0a ∧ position ≠ trailerBytes then some (raws,position + 1) else none := by
  by_cases limit : position = trailerBytes
  · subst limit
    rw [automaton_limit]
    simp
  · cases bytes with
    | nil => rfl
    | cons byte bytes =>
      rw [runFrom,if_neg limit]
      by_cases feed : byte = 0x0a
      · simp [transition,feed,limit]
      · simp [transition,feed,invalidTrailer]

theorem automaton_rest {state : MachineState} {raw : RawLine} (inside : rawOf state = some raw) (position : Nat) (raws : List RawLine)
    (suffix : List UInt8) (within : position ≤ trailerBytes) :
    (runFrom state position raws suffix).toOption =
      (nextLine position suffix).bind fun parts =>
        (rawOf ((parts.1.zipIdx position).foldl consume state)).bind fun raw =>
          if raws.length = trailerFields then none
          else (runFrom .lineStart (position + parts.1.length + 2) (raws ++ [raw]) parts.2).toOption := by
  induction suffix generalizing state raw position with
  | nil =>
    cases state with
    | lineStart => cases inside
    | name facts => rfl
    | value facts => rfl
    | needLineFeed pending => cases inside
  | cons byte bytes ih =>
    by_cases limit : position = trailerBytes
    · subst limit
      rw [automaton_limit,nextLine_limit (by omega)]
      rfl
    · rw [runFrom,if_neg limit,transition_inside inside]
      unfold nextLine
      by_cases cr : byte = 0x0d
      · subst cr
        simp only [if_true,if_neg (show ¬ (0x0d : UInt8) = 0x0a by decide)]
        rw [automaton_feed]
        by_cases closed : bytes.head? = some 0x0a ∧ position + 1 ≠ trailerBytes
        · have fits : bytes.head? = some 0x0a ∧ position + 2 ≤ trailerBytes := ⟨closed.1,by omega⟩
          rw [if_pos closed,if_pos fits]
          simp [inside]
        · rw [if_neg closed,if_neg fun both => closed ⟨both.1,by omega⟩]
          rfl
      · by_cases feed : byte = 0x0a
        · simp [feed,invalidTrailer]
        · obtain ⟨later,inside'⟩ := consume_inside inside (byte,position)
          simp only [cr,feed,if_false]
          rw [ih inside' (position + 1) (by omega)]
          cases nextLine (position + 1) bytes with
          | none => rfl
          | some parts =>
            simp only [Option.map_some,Option.bind_some,List.length_cons,List.zipIdx_cons,List.foldl_cons]
            rw [show position + 1 + parts.1.length = position + (parts.1.length + 1) by omega]

theorem automaton_scan (position : Nat) (raws : List RawLine) (suffix : List UInt8) (within : position ≤ trailerBytes) :
    (runFrom .lineStart position raws suffix).toOption =
      (nextLine position suffix).bind fun parts =>
        if parts.1 = [] then some (raws,position + 2)
        else (rawOf (lineState position parts.1)).bind fun raw =>
          if raws.length = trailerFields then none
          else (runFrom .lineStart (position + parts.1.length + 2) (raws ++ [raw]) parts.2).toOption := by
  cases suffix with
  | nil => rfl
  | cons byte bytes =>
    by_cases limit : position = trailerBytes
    · subst limit
      rw [automaton_limit,nextLine_limit (by omega)]
      rfl
    · rw [runFrom,if_neg limit]
      unfold nextLine
      by_cases cr : byte = 0x0d
      · subst cr
        simp only [transition,beq_self_eq_true,if_true,if_neg (show ¬ (0x0d : UInt8) = 0x0a by decide)]
        rw [automaton_terminator]
        by_cases closed : bytes.head? = some 0x0a ∧ position + 1 ≠ trailerBytes
        · have fits : bytes.head? = some 0x0a ∧ position + 2 ≤ trailerBytes := ⟨closed.1,by omega⟩
          rw [if_pos closed,if_pos fits]
          rfl
        · rw [if_neg closed,if_neg fun both => closed ⟨both.1,by omega⟩]
          rfl
      · by_cases feed : byte = 0x0a
        · simp [feed,transition,invalidTrailer]
        · have inside : rawOf (.name ⟨position,0,isBlank byte,false,false⟩) = some (.missingColon ⟨position,0,isBlank byte,false,false⟩) := rfl
          obtain ⟨later,inside'⟩ := consume_inside inside (byte,position)
          simp only [cr,feed,if_false,transition,beq_iff_eq]
          have rest := automaton_rest inside' (position + 1) raws bytes (by omega)
          rw [consume] at rest
          rw [rest]
          cases nextLine (position + 1) bytes with
          | none => rfl
          | some parts =>
            simp only [Option.map_some,Option.bind_some,List.length_cons,reduceCtorEq,if_false,lineState,List.zipIdx_cons,List.foldl_cons,
              List.head?_cons,Option.any_some,consume]
            rw [show position + 1 + parts.1.length = position + (parts.1.length + 1) by omega]

theorem automaton_name (name : List UInt8) (absent : 0x3a ∉ name) (index : Nat) (facts : NameFacts) :
    (name.zipIdx index).foldl consume (.name facts) =
      .name { facts with
        length := facts.length + name.length
        containsOws := facts.containsOws || name.any isBlank
        containsNonToken := facts.containsNonToken || !name.all isTchar } := by
  induction name generalizing index facts with
  | nil => simp
  | cons byte name ih =>
    have notColon : byte ≠ 0x3a := by
      rintro rfl
      exact absent (by simp)
    have step : consume (.name facts) (byte,index) =
        .name { facts with
          length := facts.length + 1
          containsOws := facts.containsOws || isBlank byte
          containsNonToken := facts.containsNonToken || !isTchar byte } := by
      simp [consume,consumeName,notColon]
    rw [List.zipIdx_cons,List.foldl_cons,step,ih fun member => absent (by simp [member])]
    simp [Nat.add_assoc,Nat.add_comm 1,Bool.or_assoc,Bool.not_and]

theorem automaton_value (raw : List UInt8) (index : Nat) (facts : ValueFacts) :
    (raw.zipIdx index).foldl consume (.value facts) =
      .value { facts with
        firstContent := ((raw.zipIdx index).foldl (spanStep isBlank) (facts.firstContent,facts.contentEnd)).1
        contentEnd := ((raw.zipIdx index).foldl (spanStep isBlank) (facts.firstContent,facts.contentEnd)).2
        containsInvalidOctet := facts.containsInvalidOctet || !raw.all isValueByte } := by
  induction raw generalizing index facts with
  | nil => simp
  | cons byte raw ih =>
    rw [List.zipIdx_cons,List.foldl_cons,List.foldl_cons]
    simp only [consume,consumeValue]
    rw [ih]
    cases blank : isBlank byte <;> simp [spanStep,blank,Bool.or_assoc,Bool.not_and]

theorem automaton_field {input line tail : List UInt8} {offset : Nat} (located : input.drop offset = line ++ tail)
    (fits : line.length ≤ trailerBytes) :
    ∃ raw, rawOf (lineState offset line) = some raw ∧ (decideOneField raw).toOption.map (materializeField input) = lineField line ∧
      ∀ plan, decideOneField raw = .ok plan → (materializeField input plan).name = (planName input plan).map toAsciiLowercase := by
  unfold lineState
  rcases colon_split line with absent | ⟨name,raw,rfl,absent⟩
  · rw [automaton_name line absent]
    refine ⟨_,rfl,?_,?_⟩
    · rw [lineField_absent absent,decideOneField]
      split <;> rfl
    · intro plan impossible
      rw [decideOneField] at impossible
      split at impossible <;> cases impossible
  · have state : ((name ++ 0x3a :: raw).zipIdx offset).foldl consume
        (.name ⟨offset,0,(name ++ 0x3a :: raw).head?.any isBlank,false,false⟩) =
        .value ⟨⟨offset,name.length,(name ++ 0x3a :: raw).head?.any isBlank,name.any isBlank,!name.all isTchar⟩,offset + name.length,
          offset + name.length + 1,
          ((raw.zipIdx (offset + name.length + 1)).foldl (spanStep isBlank) (none,offset + name.length + 1)).1,
          ((raw.zipIdx (offset + name.length + 1)).foldl (spanStep isBlank) (none,offset + name.length + 1)).2,!raw.all isValueByte⟩ := by
      rw [List.zipIdx_append,List.foldl_append,automaton_name name absent,List.zipIdx_cons,List.foldl_cons]
      have step (facts : NameFacts) : consume (.name facts) (0x3a,offset + name.length) =
          .value ⟨facts,offset + name.length,offset + name.length + 1,none,offset + name.length + 1,false⟩ := by
        simp [consume,consumeName]
      rw [step,automaton_value]
      simp
    rw [state]
    refine ⟨_,rfl,?_⟩
    have named := (span_field located (show 0 + 0 ≤ raw.length by omega)).1
    rw [lineField_split absent]
    by_cases good : name ≠ [] ∧ name.length ≤ trailerNameBytes ∧ name.all isTchar ∧ raw.all isValueByte
    · rw [if_pos good]
      obtain ⟨filled,short,tokens,values⟩ := good
      obtain ⟨unfolded,unblank,-⟩ := token_name filled tokens raw
      have some : name.length ≠ 0 := fun zero => filled (List.length_eq_zero_iff.mp zero)
      have within : (trim isBlank raw).length ≤ trailerValueBytes := trim_within fits
      simp only [decideOneField,unfolded,unblank,tokens,values,Bool.false_eq_true,if_false,Bool.not_true,some,gt_iff_lt,Nat.not_lt.mpr short]
      rcases span_trim isBlank raw (offset + name.length + 1) (offset + name.length + 1) with ⟨empty,folded⟩ | ⟨front,folded,cut,inside⟩
      · simp only [folded,Option.map_none,Option.getD_none,Nat.not_lt_zero,if_false]
        refine ⟨?_,?_⟩
        · simp only [toOption_ok,Option.map_some,materializeField,planName,named,name_chars tokens,empty]
          simp [slice]
        · intro plan same
          cases same
          simp only [materializeField,planName,named,name_chars tokens]
      · have width : offset + name.length + 1 + front + (trim isBlank raw).length - (offset + name.length + 1 + front) =
            (trim isBlank raw).length := by omega
        have valued := (span_field located inside).2
        rw [show offset + (name.length + 1 + front) = offset + name.length + 1 + front by omega,
          show offset + (name.length + 1 + (front + (trim isBlank raw).length)) =
            offset + name.length + 1 + front + (trim isBlank raw).length by omega] at valued
        simp only [folded,Option.map_some,Option.getD_some,width,Nat.not_lt.mpr within,if_false]
        refine ⟨?_,?_⟩
        · simp only [toOption_ok,Option.map_some,materializeField,planName,named,name_chars tokens,valued,cut]
        · intro plan same
          cases same
          simp only [materializeField,planName,named,name_chars tokens]
    · have failed (found : FieldPlan) : decideOneField (.complete ⟨⟨offset,name.length,(name ++ 0x3a :: raw).head?.any isBlank,name.any isBlank,
          !name.all isTchar⟩,offset + name.length,offset + name.length + 1,
          ((raw.zipIdx (offset + name.length + 1)).foldl (spanStep isBlank) (none,offset + name.length + 1)).1,
          ((raw.zipIdx (offset + name.length + 1)).foldl (spanStep isBlank) (none,offset + name.length + 1)).2,!raw.all isValueByte⟩) ≠ .ok found := by
        intro ok
        rw [decideOneField] at ok
        dsimp only at ok
        repeat' split at ok
        all_goals cases ok
        rename_i filled short _ tokens values _
        refine good ⟨?_,Nat.not_lt.mp short,by simpa using tokens,by simpa using values⟩
        rintro rfl
        exact filled rfl
      rw [if_neg good]
      refine ⟨?_,fun plan ok => absurd ok (failed plan)⟩
      rw [Option.map_eq_none_iff,Option.eq_none_iff_forall_ne_some]
      intro plan ok
      exact failed plan ((toOption_iff _ _).mp ok)

/-- The lines as the automaton keeps them. -/
def rawLines (offset : Nat) : List (List UInt8) → List RawLine
  | [] => []
  | line :: lines => (rawOf (lineState offset line)).toList ++ rawLines (offset + line.length + 2) lines

theorem automaton_frame {offset : Nat} {suffix : List UInt8} {lines : Option (List (List UInt8))} (lined : Lined offset suffix lines)
    {input : List UInt8} (located : input.drop offset = suffix) (raws : List RawLine) (room : raws.length ≤ trailerFields)
    (within : offset ≤ trailerBytes) :
    (runFrom .lineStart offset raws suffix).toOption =
      lines.bind fun lines =>
        if raws.length + lines.length ≤ trailerFields then some (raws ++ rawLines offset lines,offset + (wire lines).length + 2) else none := by
  induction lined generalizing raws with
  | failed scanned =>
    rw [automaton_scan _ _ _ within,scanned]
    rfl
  | ended scanned =>
    rw [automaton_scan _ _ _ within,scanned]
    simp [wire,rawLines,room]
  | @line offset suffix line rest lines scanned filled _ ih =>
    obtain ⟨here,next,fits⟩ := located_next located scanned
    obtain ⟨raw,found,_⟩ := automaton_field here (show line.length ≤ trailerBytes by omega)
    rw [automaton_scan _ _ _ within,scanned]
    simp only [Option.bind_some,filled,if_false,found]
    by_cases full : raws.length = trailerFields
    · rw [if_pos full]
      cases lines with
      | none => rfl
      | some lines =>
        simp only [Option.map_some,Option.bind_some,List.length_cons]
        rw [if_neg (by omega)]
    · rw [if_neg full,ih next (raws ++ [raw]) (by simp; omega) fits]
      cases lines with
      | none => rfl
      | some lines =>
        simp only [Option.map_some,Option.bind_some,List.length_append,List.length_cons,List.length_nil,wire_length,rawLines,found,
          Option.toList_some,List.append_assoc,Nat.zero_add,List.cons_append,List.nil_append]
        rw [show raws.length + 1 + lines.length = raws.length + (lines.length + 1) by omega,
          show offset + line.length + 2 + (wire lines).length + 2 = offset + (line.length + 2 + (wire lines).length) + 2 by omega]

theorem permit_full (names : List (List UInt8)) (lines : List (List UInt8)) (fields : List HeaderField) (room : fields.length ≤ trailerFields)
    (many : trailerFields < fields.length + lines.length) : permit names fields lines = none := by
  induction lines generalizing fields with
  | nil =>
    rw [List.length_nil] at many
    omega
  | cons line lines ih =>
    rw [List.length_cons] at many
    rw [permit]
    split
    · rfl
    · cases lineField line with
      | none => rfl
      | some field =>
        rw [Option.bind_some,ih (fields ++ [field]) (by simp; omega) (by simp; omega)]
        simp

theorem automaton_fields {input suffix : List UInt8} {table names : List (List UInt8)} (sorted : table.Pairwise (· ≤ ·))
    (same : ∀ name, name ∈ table ↔ name ∈ names) (lines : List (List UInt8)) {offset : Nat} (located : input.drop offset = wire lines ++ suffix)
    (fits : ∀ line ∈ lines, line.length ≤ trailerBytes) (earlier : List FieldPlan) (room : earlier.length + lines.length ≤ trailerFields)
    (named : ∀ plan ∈ earlier, (materializeField input plan).name = (planName input plan).map toAsciiLowercase) :
    ((rawLines offset lines).mapM decideOneField).toOption.bind (fun plans =>
        (enforceFrom input table earlier plans).toOption.map fun _ => (earlier ++ plans).map (materializeField input)) =
      permit names (earlier.map (materializeField input)) lines := by
  induction lines generalizing offset earlier with
  | nil => simp [rawLines,enforceFrom,permit]
  | cons line lines ih =>
    rw [wire_cons,List.append_assoc,List.cons_append,List.cons_append] at located
    have next : input.drop (offset + line.length + 2) = wire lines ++ suffix := by
      rw [Nat.add_assoc,← List.drop_drop,located,← List.drop_drop,List.drop_left]
      rfl
    obtain ⟨raw,found,read,spelled⟩ := automaton_field located (fits line (by simp))
    rw [List.length_cons] at room
    rw [rawLines,found,permit,List.length_map,if_neg (by omega),← read]
    simp only [Option.toList_some,List.singleton_append,List.mapM_cons,toOption_bind]
    cases decided : decideOneField raw with
    | error error => rfl
    | ok plan =>
      have lowered := spelled plan decided
      have checks (plans : List FieldPlan) : (enforceFrom input table earlier (plan :: plans)).toOption =
          if Admits names (earlier.map (materializeField input)) (materializeField input plan) then
            (enforceFrom input table (earlier ++ [plan]) plans).toOption
          else none := by
        rw [enforceFrom]
        simp only [toOption_ite,toOption_invalid]
        apply admits_guards (materializeField input plan)
        · rw [forbidden_wire,lowered]
        · rw [lowered,← same,← search_lowered sorted]
          rw [Bool.not_eq_true',containsWireName,Bool.not_eq_true]
        · rw [List.any_eq_true,lowered,List.map_map,List.mem_map]
          refine exists_congr fun other => and_congr_right fun member => ?_
          rw [eqIgnoreAsciiCase_iff,Function.comp_apply,named other member]
      have step := ih next (fun other member => fits other (by simp [member])) (earlier ++ [plan])
        (by simp only [List.length_append,List.length_singleton]; omega) ?_
      · rw [List.map_append,List.map_cons,List.map_nil] at step
        simp only [toOption_ok,Option.bind_some,Option.map_some]
        rw [← step]
        cases ((rawLines (offset + line.length + 2) lines).mapM decideOneField).toOption with
        | none => simp
        | some plans =>
          simp only [Option.bind_some,toOption_ok,pure_result,checks]
          by_cases admits : Admits names (earlier.map (materializeField input)) (materializeField input plan)
          · simp only [if_pos admits,List.append_assoc,List.singleton_append]
          · simp only [if_neg admits,Option.map_none]
      · intro other member
        rcases List.mem_append.mp member with old | new
        · exact named other old
        · rw [List.mem_singleton.mp new]
          exact lowered

theorem automaton_section {input : List UInt8} {lines : Option (List (List UInt8))} (lined : Lined 0 input lines) {names : List (List UInt8)}
    (short : Short names) (block : TrailerBlock) :
    TrailerEventAutomaton.parseTrailerSection input names = .ok block ↔ Declarable names ∧ accepted names lines = some block := by
  rw [← toOption_iff]
  unfold TrailerEventAutomaton.parseTrailerSection runWireAutomaton
  rw [toOption_bind]
  apply checked_iff
  · intro table built
    obtain ⟨declarable,rfl⟩ := (automaton_table short).mp built
    refine ⟨declarable,?_⟩
    rw [toOption_bind,automaton_frame lined rfl [] (by decide) (by decide),accepted]
    cases lines with
    | none => rfl
    | some lines =>
      obtain ⟨rest,split,_,_⟩ := (lined_iff 0 input lines).mp lined
      obtain ⟨_,whole⟩ := lined_wire lined
      simp only [Option.bind_some,List.length_nil,Nat.zero_add,List.nil_append]
      by_cases many : lines.length ≤ trailerFields
      · have read := automaton_fields (Ordered.pairwise_sort names) (Ordered.mem_sort names) lines (show input.drop 0 = _ from split)
          (fun line member => (whole line member).2) [] (by simpa using many) (by simp)
        rw [List.map_nil] at read
        rw [if_pos many,Option.bind_some,← read]
        simp only [toOption_bind]
        cases ((rawLines 0 lines).mapM decideOneField).toOption with
        | none => rfl
        | some plans =>
          simp only [Option.bind_some]
          cases (enforceFrom input (Ordered.sort names) [] plans).toOption <;> rfl
      · rw [if_neg many,permit_full names lines [] (by decide) (by simpa using many)]
        rfl
  · exact fun declarable => ⟨_,(automaton_table short).mpr ⟨declarable,rfl⟩⟩

end EventAutomaton

theorem section_lined {input : List UInt8} {lines : Option (List (List UInt8))} (lined : Lined 0 input lines) {names : List (List UInt8)}
    (short : Short names) (block : TrailerBlock) :
    ∀ parse ∈ trailerImplementations, parse input names = .ok block ↔ Declarable names ∧ accepted names lines = some block := by
  intro parse member
  simp only [trailerImplementations,List.mem_cons,List.not_mem_nil,or_false] at member
  rcases member with rfl | rfl | rfl | rfl | rfl
  · exact trie_section lined block
  · exact phases_section lined short block
  · exact direct_section lined short block
  · exact invariants_section lined short block
  · exact automaton_section lined short block

theorem empty_section {names : List (List UInt8)} (short : Short names) (declarable : Declarable names) :
    ∀ parse ∈ trailerImplementations, parse [0x0d,0x0a] names = .ok ⟨[],2⟩ := by
  intro parse member
  exact (section_lined (.ended (by rfl)) short ⟨[],2⟩ parse member).mpr ⟨declarable,rfl⟩

/-- Each implementation accepts exactly the well-formed sections that distinct, allowed declarations permit. -/
theorem trailer_policy_exact (input : List UInt8) (names : List (List UInt8)) (short : ∀ name ∈ names, name.length ≤ trailerNameBytes)
    (block : TrailerBlock) :
    ∀ parse ∈ trailerImplementations, parse input names = .ok block ↔ Declarable names ∧ Section input names block := by
  intro parse member
  obtain ⟨lines,lined⟩ := lined_total input 0
  rw [section_lined lined short block parse member,section_iff lined]

/-- Two declared names, whose fields come in the other order. -/
theorem trailer_policy_exact_pair :
    Declarable [ascii "x-a",ascii "x-b"] ∧ Section (ascii "X-B: c\r\nX-A: b \r\n\r\nz") [ascii "x-a",ascii "x-b"]
      ⟨[⟨ascii "x-b",ascii "c"⟩,⟨ascii "x-a",ascii "b"⟩],19⟩ :=
  (trailer_policy_exact (ascii "X-B: c\r\nX-A: b \r\n\r\nz") [ascii "x-a",ascii "x-b"] (by decide)
    ⟨[⟨ascii "x-b",ascii "c"⟩,⟨ascii "x-a",ascii "b"⟩],19⟩ TrailerEventAutomaton.parseTrailerSection
    (by simp [trailerImplementations])).mp (by decide +kernel)

end Polyguard.TrailerAgreement
