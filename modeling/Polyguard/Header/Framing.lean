import Polyguard.Header.Implementations

/-! The CRLF framing of a header section.
`frameLine` is one framed line; `Framed` is the list of complete lines of a
section with how the framing ends. Every framing scan of the implementations is
brought to these two, except that the byte-wise reducer reports the section
limit where the others still see a bare CR at the last admitted offset. -/
namespace Polyguard.HeaderFraming
open Ascii Slices

/-- The next line up to its CRLF, and what follows the CRLF. -/
def frameLine (start position : Nat) : List UInt8 → Result (List UInt8 × List UInt8)
  | [] => .error .incomplete
  | byte :: bytes =>
    if position = headerSectionBytes then sectionLimit (headerSectionBytes + 1)
    else if byte == 0x0a then invalidHeader start "bare_line_ending"
    else if byte != 0x0d then do
      let (line,rest) ← frameLine start (position + 1) bytes
      .ok (byte :: line,rest)
    else if bytes.head? != some 0x0a then invalidHeader start "bare_line_ending"
    else if position + 2 > headerSectionBytes then sectionLimit (position + 2)
    else .ok ([],bytes.tail)

/-- The complete lines of a section with their offsets, and how its framing ends. -/
inductive Framed : Nat → List UInt8 → List (Nat × List UInt8) → Result Nat → Prop where
  | failed {offset : Nat} {suffix : List UInt8} {error : PolyguardError} :
      frameLine offset offset suffix = .error error → Framed offset suffix [] (.error error)
  | ended {offset : Nat} {suffix rest : List UInt8} :
      frameLine offset offset suffix = .ok ([],rest) → Framed offset suffix [] (.ok (offset + 2))
  | line {offset : Nat} {suffix line rest : List UInt8} {lines : List (Nat × List UInt8)}
      {ending : Result Nat} :
      frameLine offset offset suffix = .ok (line,rest) → line ≠ [] →
      Framed (offset + line.length + 2) rest lines ending →
      Framed offset suffix ((offset,line) :: lines) ending

def frameFrom : Nat → Nat → List UInt8 → List (Nat × List UInt8) × Result Nat
  | 0,_,_ => ([],.error .incomplete)
  | fuel + 1,offset,suffix =>
    match frameLine offset offset suffix with
    | .error error => ([],.error error)
    | .ok ([],_) => ([],.ok (offset + 2))
    | .ok (line,rest) =>
      let (lines,ending) := frameFrom fuel (offset + line.length + 2) rest
      ((offset,line) :: lines,ending)

def frames (input : List UInt8) : List (Nat × List UInt8) × Result Nat := frameFrom (input.length + 1) 0 input

/-- A byte inside a line. -/
def Inner (byte : UInt8) : Prop := byte ≠ 0x0d ∧ byte ≠ 0x0a

theorem frameLine_ok (start position : Nat) (suffix line rest : List UInt8)
    (bound : position ≤ headerSectionBytes) :
    frameLine start position suffix = .ok (line,rest) ↔
      suffix = line ++ 0x0d :: 0x0a :: rest ∧ (∀ b ∈ line, Inner b) ∧
        position + line.length + 2 ≤ headerSectionBytes := by
  induction suffix generalizing position line with
  | nil => simp [frameLine]
  | cons byte bytes ih =>
    unfold frameLine
    constructor
    · intro ok
      by_cases limit : position = headerSectionBytes
      · rw [if_pos limit] at ok
        cases ok
      · rw [if_neg limit] at ok
        by_cases lf : byte = 0x0a
        · rw [if_pos (by simp [lf])] at ok
          cases ok
        · rw [if_neg (by simp [lf])] at ok
          by_cases cr : byte = 0x0d
          · subst cr
            rw [if_neg (by simp)] at ok
            split at ok
            · cases ok
            · rename_i following
              split at ok
              · cases ok
              · cases ok
                obtain ⟨rest,rfl⟩ := List.head?_eq_some_iff.mp (by simpa using following)
                exact ⟨by simp,by simp,by simp; omega⟩
          · rw [if_pos (by simp [cr])] at ok
            obtain ⟨⟨inner,after⟩,framed,same⟩ := bind_success ok
            cases same
            obtain ⟨rfl,clean,fits⟩ := (ih (position + 1) inner (by omega)).mp framed
            refine ⟨by simp,?_,by simp only [List.length_cons]; omega⟩
            intro b member
            rcases List.mem_cons.mp member with rfl | inside
            · exact ⟨cr,lf⟩
            · exact clean b inside
    · intro described
      obtain ⟨same,clean,fits⟩ := described
      cases line with
      | nil =>
        obtain ⟨rfl,rfl⟩ := List.cons_eq_cons.mp same
        have inside : position ≠ headerSectionBytes := by simp at fits; omega
        have fitting : ¬ position + 2 > headerSectionBytes := by simp at fits; omega
        simp [inside,fitting]
      | cons first line =>
        rw [List.cons_append] at same
        obtain ⟨rfl,rfl⟩ := List.cons_eq_cons.mp same
        obtain ⟨notCr,notLf⟩ := clean byte (by simp)
        simp only [List.length_cons] at fits
        have inside : position ≠ headerSectionBytes := by omega
        have framed := (ih (position + 1) line (by omega)).mpr
          ⟨rfl,fun b member => clean b (by simp [member]),by omega⟩
        simp [inside,notCr,notLf,framed]

theorem framed_frameFrom (fuel offset : Nat) (suffix : List UInt8) (enough : suffix.length < fuel)
    (bound : offset ≤ headerSectionBytes) :
    Framed offset suffix (frameFrom fuel offset suffix).1 (frameFrom fuel offset suffix).2 := by
  induction fuel generalizing offset suffix with
  | zero => omega
  | succ fuel ih =>
    unfold frameFrom
    cases framed : frameLine offset offset suffix with
    | error error => exact .failed framed
    | ok parts =>
      obtain ⟨line,rest⟩ := parts
      obtain ⟨same,_,fits⟩ := (frameLine_ok offset offset suffix line rest bound).mp framed
      cases line with
      | nil => exact .ended framed
      | cons byte bytes =>
        have shorter : rest.length < fuel := by
          rw [same] at enough
          simp only [List.length_append,List.length_cons] at enough
          omega
        exact .line framed (by simp) (ih _ _ shorter fits)

theorem framed_frames (input : List UInt8) : Framed 0 input (frames input).1 (frames input).2 :=
  framed_frameFrom _ _ _ (by omega) (by decide)

private theorem frameLine_inner (start position : Nat) (byte : UInt8) (bytes : List UInt8)
    (inner : Inner byte) :
    frameLine start position (byte :: bytes) =
      if position = headerSectionBytes then sectionLimit (headerSectionBytes + 1)
      else frameLine start (position + 1) bytes >>= fun parts => .ok (byte :: parts.1,parts.2) := by
  rw [frameLine]
  simp [inner.1,inner.2]

theorem frameLine_clean (start position : Nat) (suffix : List UInt8) (bound : position ≤ headerSectionBytes)
    (clean : ∀ b ∈ suffix, Inner b) :
    frameLine start position suffix =
      if position + suffix.length > headerSectionBytes then sectionLimit (headerSectionBytes + 1)
      else .error .incomplete := by
  induction suffix generalizing position with
  | nil =>
    rw [if_neg (by simp; omega)]
    rfl
  | cons byte bytes ih =>
    rw [frameLine_inner _ _ _ _ (clean byte (by simp))]
    by_cases limit : position = headerSectionBytes
    · rw [if_pos limit,if_pos (by simp; omega)]
    · rw [if_neg limit,ih (position + 1) (by omega) fun b member => clean b (by simp [member]),
        List.length_cons,Nat.add_right_comm,Nat.add_assoc position]
      split <;> rfl

/-- A scan whose first CR or LF stands after `line`. -/
theorem frameLine_control (start position : Nat) (line : List UInt8) (control : UInt8) (after : List UInt8)
    (bound : position ≤ headerSectionBytes) (clean : ∀ b ∈ line, Inner b)
    (ending : control = 0x0d ∨ control = 0x0a) :
    frameLine start position (line ++ control :: after) =
      if headerSectionBytes ≤ position + line.length then sectionLimit (headerSectionBytes + 1)
      else if control = 0x0a ∨ after.head? ≠ some 0x0a then invalidHeader start "bare_line_ending"
      else if position + line.length + 2 > headerSectionBytes then sectionLimit (headerSectionBytes + 1)
      else .ok (line,after.tail) := by
  induction line generalizing position with
  | nil =>
    rw [List.nil_append,frameLine]
    simp only [List.length_nil,Nat.add_zero]
    by_cases limit : position = headerSectionBytes
    · rw [if_pos limit,if_pos (by omega)]
    · have within : ¬ headerSectionBytes ≤ position := by omega
      rw [if_neg limit,if_neg within]
      rcases ending with rfl | rfl
      · by_cases following : after.head? = some 0x0a
        · by_cases long : position + 2 > headerSectionBytes
          · have exact_ : position + 2 = headerSectionBytes + 1 := by omega
            simp [following,exact_]
          · simp [following,long]
        · simp [following]
      · simp
  | cons byte line ih =>
    rw [List.cons_append,frameLine_inner _ _ _ _ (clean byte (by simp))]
    by_cases limit : position = headerSectionBytes
    · rw [if_pos limit,if_pos (by simp; omega)]
    · rw [if_neg limit,ih (position + 1) (by omega) fun b member => clean b (by simp [member]),
        List.length_cons,show position + 1 + line.length = position + (line.length + 1) by omega]
      repeat' split
      all_goals rfl

private theorem control_iff (byte : UInt8) : HeaderAlgebraicLines.isLineControl byte = false ↔ Inner byte := by
  simp [HeaderAlgebraicLines.isLineControl,Inner]

private theorem crlf_none {bytes : List UInt8} (clean : ∀ b ∈ bytes, Inner b) :
    HeaderAlgebraicLines.crlfPosition bytes = none := by
  induction bytes with
  | nil => rfl
  | cons byte bytes ih =>
    have inner := clean byte (by simp)
    rw [HeaderAlgebraicLines.crlfPosition,ih fun b member => clean b (by simp [member])]
    simp [inner.1]

private theorem crlf_line {line : List UInt8} (clean : ∀ b ∈ line, Inner b) (after : List UInt8) :
    HeaderAlgebraicLines.crlfPosition (line ++ after) =
      (HeaderAlgebraicLines.crlfPosition after).map (line.length + ·) := by
  induction line with
  | nil => simp
  | cons byte line ih =>
    have inner := clean byte (by simp)
    rw [List.cons_append,HeaderAlgebraicLines.crlfPosition,ih fun b member => clean b (by simp [member])]
    cases HeaderAlgebraicLines.crlfPosition after <;> simp [inner.1]
    omega

private theorem crlf_here (rest : List UInt8) :
    HeaderAlgebraicLines.crlfPosition (0x0d :: 0x0a :: rest) = some 0 := by
  simp [HeaderAlgebraicLines.crlfPosition]

private theorem crlf_later {control : UInt8} {after : List UInt8}
    (unpaired : ¬ (control = 0x0d ∧ after.head? = some 0x0a)) :
    HeaderAlgebraicLines.crlfPosition (control :: after) =
      (HeaderAlgebraicLines.crlfPosition after).map (· + 1) := by
  rw [HeaderAlgebraicLines.crlfPosition,if_neg (by simpa using unpaired)]

private theorem drop_pair (line rest : List UInt8) :
    (line ++ 0x0d :: 0x0a :: rest).drop (line.length + 2) = rest := by
  rw [← List.drop_drop,List.drop_left]
  rfl

/-- The tail-splitting scan returns the framed line of `frameLine`. -/
theorem algebraic_line (offset : Nat) (bytes : List UInt8) (bound : offset ≤ headerSectionBytes) :
    HeaderAlgebraicLines.takeCompleteLine ⟨offset,bytes⟩ =
      (frameLine offset offset bytes >>= fun parts =>
        if parts.1 = [] then .ok (.finish (offset + 2))
        else .ok (.field ⟨offset,parts.1⟩ ⟨offset + parts.1.length + 2,parts.2⟩)) := by
  unfold HeaderAlgebraicLines.takeCompleteLine
  rcases first_hit HeaderAlgebraicLines.isLineControl bytes with miss | ⟨line,control,after,rfl,miss,found⟩
  · have clean : ∀ b ∈ bytes, Inner b := fun b member => (control_iff b).mp (miss b member)
    rw [crlf_none clean,frameLine_clean offset offset bytes bound clean]
    simp only [position_none miss]
    simp only [Option.any_none,Bool.false_eq_true,if_false]
    split <;> rfl
  · have clean : ∀ b ∈ line, Inner b := fun b member => (control_iff b).mp (miss b member)
    have ending : control = 0x0d ∨ control = 0x0a := by
      simpa [HeaderAlgebraicLines.isLineControl] using found
    rw [crlf_line clean,frameLine_control offset offset line control after bound clean ending]
    by_cases paired : control = 0x0d ∧ after.head? = some 0x0a
    · obtain ⟨rfl,following⟩ := paired
      obtain ⟨rest,rfl⟩ := List.head?_eq_some_iff.mp following
      simp only [crlf_here,Option.map_some,Nat.add_zero,List.take_left,position_none miss,drop_pair]
      grind
    · have bare : control = 0x0a ∨ after.head? ≠ some 0x0a := by
        rcases ending with cr | lf
        · exact .inr fun following => paired ⟨cr,following⟩
        · exact .inl lf
      rw [crlf_later paired]
      cases HeaderAlgebraicLines.crlfPosition after with
      | none =>
        simp only [Option.map_none,position_append after miss found,Option.any_some,bare,if_true]
        have long : offset + line.length < offset + (line ++ control :: after).length := by simp
        grind
      | some index =>
        have cut : (line ++ control :: after).take (line.length + (index + 1)) =
            line ++ control :: after.take index := by
          rw [List.take_length_add_append,List.take_succ_cons]
        simp only [Option.map_some,cut,position_append (after.take index) miss found,Option.any_some,bare,
          if_true]
        grind

private theorem cursor_scan (input : List UInt8) (start position : Nat) (suffix : List UInt8) :
    HeaderTypedCursor.frameFrom input start position suffix =
      (frameLine start position suffix >>= fun parts =>
        if position + parts.1.length = start then .ok (.terminator (position + parts.1.length + 2))
        else .ok (.field (slice input start (position + parts.1.length)) (position + parts.1.length + 2))) := by
  induction suffix generalizing position with
  | nil => rfl
  | cons byte bytes ih =>
    by_cases limit : position = headerSectionBytes
    · simp [HeaderTypedCursor.frameFrom,frameLine,limit]
    · by_cases cr : byte = 0x0d
      · rw [HeaderTypedCursor.frameFrom,frameLine,if_neg limit,if_neg limit]
        subst cr
        by_cases following : bytes.head? = some 0x0a
        · by_cases long : position + 2 > headerSectionBytes <;> simp [following,long]
        · simp [following]
      · by_cases lf : byte = 0x0a
        · simp [HeaderTypedCursor.frameFrom,frameLine,limit,lf]
        · rw [HeaderTypedCursor.frameFrom,frameLine_inner _ _ _ _ ⟨cr,lf⟩,if_neg limit,if_neg limit,
            if_neg (by simpa using lf),if_pos (by simpa using cr),ih,bind_assoc]
          simp only [bind_ok,List.length_cons,show ∀ n, position + 1 + n = position + (n + 1) by omega]

theorem cursor_line (input suffix : List UInt8) (offset : Nat) (bound : offset ≤ headerSectionBytes)
    (located : input.drop offset = suffix) :
    HeaderTypedCursor.frameNextLine input offset =
      (frameLine offset offset suffix >>= fun parts =>
        if parts.1 = [] then .ok (.terminator (offset + 2))
        else .ok (.field parts.1 (offset + parts.1.length + 2))) := by
  unfold HeaderTypedCursor.frameNextLine
  rw [located,cursor_scan]
  cases framed : frameLine offset offset suffix with
  | error error => rfl
  | ok parts =>
    obtain ⟨line,rest⟩ := parts
    obtain ⟨same,_,_⟩ := (frameLine_ok _ _ _ _ _ bound).mp framed
    have cut : slice input offset (offset + line.length) = line := by
      rw [slice,List.drop_take,located,same,Nat.add_sub_cancel_left,List.take_left]
    simp only [bind_ok,cut]
    cases line with
    | nil => simp
    | cons byte line => simp

theorem table_line (input suffix : List UInt8) (offset : Nat) (located : input.drop offset = suffix) :
    HeaderDecisionTable.findCrlf input offset =
      (frameLine offset offset suffix >>= fun parts =>
        .ok (offset + parts.1.length,offset + parts.1.length + 2)) := by
  have scan (position : Nat) (suffix : List UInt8) :
      HeaderDecisionTable.findFrom offset position suffix =
        (frameLine offset position suffix >>= fun parts =>
          .ok (position + parts.1.length,position + parts.1.length + 2)) := by
    induction suffix generalizing position with
    | nil => rfl
    | cons byte bytes ih =>
      by_cases limit : position = headerSectionBytes
      · simp [HeaderDecisionTable.findFrom,frameLine,limit]
      · by_cases cr : byte = 0x0d
        · rw [HeaderDecisionTable.findFrom,frameLine,if_neg limit,if_neg limit]
          subst cr
          by_cases following : bytes.head? = some 0x0a
          · by_cases long : position + 2 > headerSectionBytes <;> simp [following,long]
          · simp [following]
        · by_cases lf : byte = 0x0a
          · simp [HeaderDecisionTable.findFrom,frameLine,limit,lf]
          · rw [HeaderDecisionTable.findFrom,frameLine_inner _ _ _ _ ⟨cr,lf⟩,if_neg limit,if_neg limit,
              if_neg (by simpa using lf),if_neg (by simpa using cr),ih,bind_assoc]
            simp only [bind_ok,List.length_cons,show ∀ n, position + 1 + n = position + (n + 1) by omega]
  unfold HeaderDecisionTable.findCrlf
  rw [located,scan]

private theorem prove_scan (atStart : Bool) (start position : Nat) (suffix : List UInt8) :
    HeaderStatePhases.proveFrom atStart start position suffix =
      (frameLine start position suffix >>= fun parts =>
        if atStart ∧ parts.1 = [] then .ok (position + 2)
        else HeaderStatePhases.proveFrom true (position + parts.1.length + 2)
          (position + parts.1.length + 2) parts.2) := by
  induction suffix generalizing atStart position with
  | nil => rfl
  | cons byte bytes ih =>
    conv_lhs => unfold HeaderStatePhases.proveFrom
    by_cases limit : position = headerSectionBytes
    · simp [frameLine,limit]
    · by_cases cr : byte = 0x0d
      · rw [frameLine,if_neg limit,if_neg limit]
        subst cr
        cases bytes with
        | nil => simp
        | cons following rest =>
          by_cases lf : following = 0x0a
          · by_cases long : position + 2 > headerSectionBytes <;> simp [lf,long]
          · simp [lf]
      · by_cases lf : byte = 0x0a
        · simp [frameLine,limit,lf]
        · rw [frameLine_inner _ _ _ _ ⟨cr,lf⟩,if_neg limit,if_neg limit,if_neg (by simpa using lf),
            if_neg (by simpa using cr),ih,bind_assoc]
          simp only [bind_ok,List.length_cons,show ∀ n, position + 1 + n = position + (n + 1) by omega]
          simp

theorem phases_boundary {offset : Nat} {suffix : List UInt8} {lines : List (Nat × List UInt8)}
    {ending : Result Nat} (framed : Framed offset suffix lines ending) :
    HeaderStatePhases.proveFrom true offset offset suffix = ending := by
  induction framed with
  | failed line => rw [prove_scan,line,bind_error]
  | ended line =>
    rw [prove_scan,line,bind_ok]
    simp
  | line line filled _ ih =>
    rw [prove_scan,line,bind_ok]
    simp [filled,ih]

/-- The unfinished line has a CR at the last admitted offset and something other than LF after it. -/
def CutAtLimit (offset : Nat) (suffix : List UInt8) : Prop :=
  ∃ line following rest, suffix = line ++ 0x0d :: following :: rest ∧ following ≠ 0x0a ∧
    (∀ b ∈ line, Inner b) ∧ offset + line.length + 1 = headerSectionBytes

private theorem reducer_inner (offset : Nat) (line after : List UInt8) (state : HeaderTransitionReducer.FramingState)
    (cursor count : Nat) (clean : ∀ b ∈ line, Inner b)
    (started : state = .lineStart offset ∨ state = .lineData offset) (fits : cursor + line.length ≤ headerSectionBytes) :
    HeaderTransitionReducer.framingFrom state cursor count (line ++ after) =
      HeaderTransitionReducer.framingFrom (if line = [] then state else .lineData offset)
        (cursor + line.length) count after := by
  induction line generalizing state cursor with
  | nil => simp
  | cons byte line ih =>
    obtain ⟨notCr,notLf⟩ := clean byte (by simp)
    simp only [List.length_cons] at fits
    have step : HeaderTransitionReducer.framingStep state cursor byte = .ok (.proceed (.lineData offset)) := by
      rcases started with rfl | rfl <;> simp [HeaderTransitionReducer.framingStep,notCr,notLf]
    have unended : HeaderTransitionReducer.endsField state (.lineData offset) = false := by
      rcases started with rfl | rfl <;> rfl
    have within : ¬ cursor = headerSectionBytes := by omega
    rw [List.cons_append,HeaderTransitionReducer.framingFrom,if_neg within,step]
    simp only [unended,Bool.false_eq_true,if_false]
    rw [ih (.lineData offset) (cursor + 1) (fun b member => clean b (by simp [member])) (.inr rfl) (by omega)]
    simp only [ite_self,List.length_cons,List.cons_ne_nil,if_false,
      show cursor + 1 + line.length = cursor + (line.length + 1) by omega]

/-- After the inner bytes of a line the reducer stands at its first CR. -/
private theorem reducer_cr (offset count : Nat) (line after : List UInt8) (clean : ∀ b ∈ line, Inner b)
    (fits : offset + line.length < headerSectionBytes) :
    HeaderTransitionReducer.framingFrom (.lineStart offset) offset count (line ++ 0x0d :: after) =
      HeaderTransitionReducer.framingFrom (.afterCarriageReturn offset line.isEmpty)
        (offset + line.length + 1) count after := by
  rw [reducer_inner offset line _ _ _ _ clean (.inl rfl) (by omega),HeaderTransitionReducer.framingFrom,
    if_neg (by omega)]
  cases line with
  | nil => rfl
  | cons byte line => rfl

private theorem reducer_limit (offset count : Nat) (line after : List UInt8) (clean : ∀ b ∈ line, Inner b)
    (bound : offset ≤ headerSectionBytes) (long : headerSectionBytes < offset + (line ++ after).length)
    (reaches : headerSectionBytes ≤ offset + line.length) :
    HeaderTransitionReducer.framingFrom (.lineStart offset) offset count (line ++ after) =
      sectionLimit (headerSectionBytes + 1) := by
  have split : line ++ after = line.take (headerSectionBytes - offset) ++
      (line.drop (headerSectionBytes - offset) ++ after) := by
    rw [← List.append_assoc,List.take_append_drop]
  have width : (line.take (headerSectionBytes - offset)).length = headerSectionBytes - offset := by
    rw [List.length_take]
    omega
  have unread : line.drop (headerSectionBytes - offset) ++ after ≠ [] := by
    intro empty
    have total := congrArg List.length split
    rw [empty,List.append_nil,width] at total
    omega
  obtain ⟨next,rest,remaining⟩ := List.exists_cons_of_ne_nil unread
  rw [split,reducer_inner offset _ _ _ _ _ (fun b member => clean b (List.mem_of_mem_take member)) (.inl rfl)
    (by omega),remaining,HeaderTransitionReducer.framingFrom,if_pos (by omega)]

theorem reducer_line (offset count : Nat) (suffix line rest : List UInt8) (bound : offset ≤ headerSectionBytes)
    (framed : frameLine offset offset suffix = .ok (line,rest)) :
    HeaderTransitionReducer.framingFrom (.lineStart offset) offset count suffix =
      if line = [] then .ok ⟨offset + 2,count⟩
      else HeaderTransitionReducer.framingFrom (.lineStart (offset + line.length + 2))
        (offset + line.length + 2) (count + 1) rest := by
  obtain ⟨rfl,clean,fits⟩ := (frameLine_ok _ _ _ _ _ bound).mp framed
  rw [reducer_cr offset count line _ clean (by omega),HeaderTransitionReducer.framingFrom,if_neg (by omega)]
  cases line with
  | nil => rfl
  | cons byte line => rfl

theorem reducer_cut (offset count : Nat) (suffix : List UInt8) (cut : CutAtLimit offset suffix) :
    HeaderTransitionReducer.framingFrom (.lineStart offset) offset count suffix =
      sectionLimit (headerSectionBytes + 1) := by
  obtain ⟨line,following,rest,rfl,_,clean,last⟩ := cut
  rw [reducer_cr offset count line _ clean (by omega),HeaderTransitionReducer.framingFrom,if_pos last]

theorem reducer_failed (offset count : Nat) (suffix : List UInt8) (error : PolyguardError)
    (bound : offset ≤ headerSectionBytes) (uncut : ¬ CutAtLimit offset suffix)
    (failed : frameLine offset offset suffix = .error error) :
    HeaderTransitionReducer.framingFrom (.lineStart offset) offset count suffix = .error error := by
  rcases first_hit HeaderAlgebraicLines.isLineControl suffix with miss | ⟨line,control,after,rfl,miss,found⟩
  · have clean : ∀ b ∈ suffix, Inner b := fun b member => (control_iff b).mp (miss b member)
    rw [frameLine_clean offset offset suffix bound clean] at failed
    split at failed
    · rename_i long
      have limited := reducer_limit offset count suffix [] clean bound (by simpa using long) (by omega)
      rw [List.append_nil] at limited
      rw [limited]
      cases failed
      rfl
    · have ran := reducer_inner offset suffix [] (.lineStart offset) offset count clean (.inl rfl) (by omega)
      rw [List.append_nil] at ran
      rw [ran]
      cases failed
      cases suffix <;> rfl
  · have clean : ∀ b ∈ line, Inner b := fun b member => (control_iff b).mp (miss b member)
    have ending : control = 0x0d ∨ control = 0x0a := by
      simpa [HeaderAlgebraicLines.isLineControl] using found
    rw [frameLine_control offset offset line control after bound clean ending] at failed
    by_cases past : headerSectionBytes ≤ offset + line.length
    · rw [if_pos past] at failed
      rw [reducer_limit offset count line _ clean bound (by simp; omega) past]
      cases failed
      rfl
    · rw [if_neg past] at failed
      rcases ending with rfl | rfl
      · rw [reducer_cr offset count line after clean (by omega)]
        cases after with
        | nil =>
          rw [if_pos (.inr (by simp))] at failed
          cases failed
          rfl
        | cons following rest =>
          rw [HeaderTransitionReducer.framingFrom]
          by_cases lf : following = 0x0a
          · subst lf
            rw [if_neg (by simp)] at failed
            split at failed
            · rw [if_pos (by omega)]
              cases failed
              rfl
            · cases failed
          · rw [if_pos (.inr (by simpa using lf))] at failed
            by_cases last : offset + line.length + 1 = headerSectionBytes
            · exact absurd ⟨line,following,rest,rfl,lf,clean,last⟩ uncut
            · cases failed
              rw [if_neg last]
              simp [HeaderTransitionReducer.framingStep,lf,HeaderTransitionReducer.lineOffset,invalidHeader]
      · rw [if_pos (.inl rfl)] at failed
        cases failed
        rw [reducer_inner offset line _ _ _ _ clean (.inl rfl) (by omega),HeaderTransitionReducer.framingFrom,
          if_neg (by omega)]
        cases line with
        | nil => rfl
        | cons byte line => rfl

/-- The bytes that complete lines take, their CRLFs included. -/
def linesLength : List (Nat × List UInt8) → Nat
  | [] => 0
  | entry :: lines => entry.2.length + 2 + linesLength lines

theorem reducer_framing {offset : Nat} {suffix : List UInt8} {lines : List (Nat × List UInt8)}
    {ending : Result Nat} (framed : Framed offset suffix lines ending) (bound : offset ≤ headerSectionBytes)
    (count : Nat) :
    (∀ consumed, ending = .ok consumed →
      HeaderTransitionReducer.framingFrom (.lineStart offset) offset count suffix =
        .ok ⟨consumed,count + lines.length⟩) ∧
    (∀ error, ending = .error error →
      (CutAtLimit (offset + linesLength lines) (suffix.drop (linesLength lines)) →
        HeaderTransitionReducer.framingFrom (.lineStart offset) offset count suffix =
          sectionLimit (headerSectionBytes + 1)) ∧
      (¬ CutAtLimit (offset + linesLength lines) (suffix.drop (linesLength lines)) →
        HeaderTransitionReducer.framingFrom (.lineStart offset) offset count suffix = .error error)) := by
  induction framed generalizing count with
  | @failed offset suffix error scanned =>
    refine ⟨by simp,?_⟩
    intro raised same
    cases same
    refine ⟨fun cut => ?_,fun uncut => ?_⟩
    · exact reducer_cut offset count suffix (by simpa [linesLength] using cut)
    · exact reducer_failed offset count suffix error bound (by simpa [linesLength] using uncut) scanned
  | ended scanned =>
    refine ⟨?_,by simp⟩
    intro consumed same
    cases same
    simp [reducer_line _ _ _ _ _ bound scanned]
  | @line offset suffix line rest lines ending scanned filled framed ih =>
    obtain ⟨same,_,fits⟩ := (frameLine_ok _ _ _ _ _ bound).mp scanned
    have length : linesLength ((offset,line) :: lines) = line.length + 2 + linesLength lines := rfl
    have dropped : suffix.drop (line.length + 2 + linesLength lines) = rest.drop (linesLength lines) := by
      rw [same,← List.drop_drop,drop_pair]
    rw [reducer_line _ _ _ _ _ bound scanned,if_neg filled,length,dropped,
      show offset + (line.length + 2 + linesLength lines) = offset + line.length + 2 + linesLength lines by omega,
      List.length_cons,show count + (lines.length + 1) = count + 1 + lines.length by omega]
    exact ih fits (count + 1)

theorem cut_error {offset : Nat} {suffix : List UInt8} {lines : List (Nat × List UInt8)} {error : PolyguardError}
    (framed : Framed offset suffix lines (.error error)) (bound : offset ≤ headerSectionBytes)
    (cut : CutAtLimit (offset + linesLength lines) (suffix.drop (linesLength lines))) :
    error = .invalidHeader (offset + linesLength lines) "bare_line_ending" := by
  generalize same : (Except.error error : Result Nat) = ending at framed
  induction framed with
  | failed scanned =>
    cases same
    obtain ⟨line,following,rest,split,other,clean,last⟩ := cut
    simp only [linesLength,List.drop_zero,Nat.add_zero] at split last ⊢
    rw [split,frameLine_control _ _ line 0x0d _ bound clean (.inl rfl),if_neg (by omega),
      if_pos (.inr (by simpa using other))] at scanned
    cases scanned
    rfl
  | ended scanned => cases same
  | @line offset suffix line rest lines ending scanned filled framed ih =>
    obtain ⟨split,_,fits⟩ := (frameLine_ok _ _ _ _ _ bound).mp scanned
    have length : linesLength ((offset,line) :: lines) = line.length + 2 + linesLength lines := rfl
    have dropped : suffix.drop (line.length + 2 + linesLength lines) = rest.drop (linesLength lines) := by
      rw [split,← List.drop_drop,drop_pair]
    rw [length,dropped,show offset + (line.length + 2 + linesLength lines) =
      offset + line.length + 2 + linesLength lines by omega] at cut
    rw [length,show offset + (line.length + 2 + linesLength lines) =
      offset + line.length + 2 + linesLength lines by omega]
    exact ih fits cut same

/-- Lines as they stand on the wire, each with its CRLF. -/
def wire (lines : List (List UInt8)) : List UInt8 := lines.flatMap fun line => line ++ [0x0d,0x0a]

/-- Lines with the offsets they get when the first stands at `offset`. -/
def place (offset : Nat) : List (List UInt8) → List (Nat × List UInt8)
  | [] => []
  | line :: lines => (offset,line) :: place (offset + line.length + 2) lines

/-- A line that is not empty and has no CR or LF. -/
def Whole (line : List UInt8) : Prop := line ≠ [] ∧ ∀ b ∈ line, Inner b

theorem wire_cons (line : List UInt8) (lines : List (List UInt8)) :
    wire (line :: lines) = line ++ 0x0d :: 0x0a :: wire lines := by
  simp [wire]

theorem framed_lines {offset : Nat} {suffix : List UInt8} {lines : List (Nat × List UInt8)}
    {ending : Result Nat} (framed : Framed offset suffix lines ending) (bound : offset ≤ headerSectionBytes) :
    (∀ entry ∈ lines, Whole entry.2) ∧ lines = place offset (lines.map Prod.snd) ∧
      suffix = wire (lines.map Prod.snd) ++ suffix.drop (linesLength lines) := by
  induction framed with
  | failed scanned => simp [place,wire,linesLength]
  | ended scanned => simp [place,wire,linesLength]
  | @line offset suffix line rest lines ending scanned filled framed ih =>
    obtain ⟨same,clean,fits⟩ := (frameLine_ok _ _ _ _ _ bound).mp scanned
    obtain ⟨whole,placed,split⟩ := ih fits
    have length : linesLength ((offset,line) :: lines) = line.length + 2 + linesLength lines := rfl
    refine ⟨?_,?_,?_⟩
    · intro entry member
      rcases List.mem_cons.mp member with rfl | inside
      · exact ⟨filled,clean⟩
      · exact whole entry inside
    · rw [List.map_cons,place,← placed]
    · rw [length,List.map_cons,wire_cons,← List.drop_drop,same,drop_pair]
      conv_lhs => rw [split]
      simp

theorem framed_unique {offset : Nat} {suffix : List UInt8} {lines lines' : List (Nat × List UInt8)}
    {ending ending' : Result Nat} (framed : Framed offset suffix lines ending)
    (framed' : Framed offset suffix lines' ending') : lines = lines' ∧ ending = ending' := by
  induction framed generalizing lines' ending' with
  | failed scanned =>
    cases framed' with
    | failed scanned' => rw [scanned] at scanned'; cases scanned'; exact ⟨rfl,rfl⟩
    | ended scanned' => rw [scanned] at scanned'; cases scanned'
    | line scanned' => rw [scanned] at scanned'; cases scanned'
  | ended scanned =>
    cases framed' with
    | failed scanned' => rw [scanned] at scanned'; cases scanned'
    | ended scanned' => exact ⟨rfl,rfl⟩
    | line scanned' filled => rw [scanned] at scanned'; cases scanned'; exact absurd rfl filled
  | line scanned filled _ ih =>
    cases framed' with
    | failed scanned' => rw [scanned] at scanned'; cases scanned'
    | ended scanned' => rw [scanned] at scanned'; cases scanned'; exact absurd rfl filled
    | line scanned' filled' later =>
      rw [scanned] at scanned'
      cases scanned'
      obtain ⟨rfl,rfl⟩ := ih later
      exact ⟨rfl,rfl⟩

theorem framed_of_wire (offset : Nat) (lines : List (List UInt8)) (rest : List UInt8)
    (whole : ∀ line ∈ lines, Whole line)
    (fits : offset + (wire lines).length + 2 ≤ headerSectionBytes) :
    Framed offset (wire lines ++ 0x0d :: 0x0a :: rest) (place offset lines)
      (.ok (offset + (wire lines).length + 2)) := by
  induction lines generalizing offset with
  | nil =>
    simp only [wire,List.flatMap_nil,List.length_nil,Nat.add_zero] at fits
    exact .ended ((frameLine_ok _ _ _ _ _ (by omega)).mpr ⟨rfl,by simp,by simpa using fits⟩)
  | cons line lines ih =>
    have first := whole line (by simp)
    have length : (wire (line :: lines)).length = line.length + 2 + (wire lines).length := by
      rw [wire_cons]
      simp only [List.length_append,List.length_cons]
      omega
    rw [length] at fits ⊢
    have scanned : frameLine offset offset (wire (line :: lines) ++ 0x0d :: 0x0a :: rest) =
        .ok (line,wire lines ++ 0x0d :: 0x0a :: rest) := by
      apply (frameLine_ok _ _ _ _ _ (by omega)).mpr
      exact ⟨by rw [wire_cons]; simp,first.2,by omega⟩
    have later := ih (offset + line.length + 2) (fun other member => whole other (by simp [member])) (by omega)
    rw [show offset + line.length + 2 + (wire lines).length + 2 =
      offset + (line.length + 2 + (wire lines).length) + 2 by omega] at later
    exact .line scanned first.1 later

theorem framed_ended {offset : Nat} {suffix : List UInt8} {lines : List (Nat × List UInt8)} {consumed : Nat}
    (framed : Framed offset suffix lines (.ok consumed)) (bound : offset ≤ headerSectionBytes) :
    ∃ rest, suffix = wire (lines.map Prod.snd) ++ 0x0d :: 0x0a :: rest ∧
      consumed = offset + (wire (lines.map Prod.snd)).length + 2 ∧ consumed ≤ headerSectionBytes := by
  generalize same : (Except.ok consumed : Result Nat) = ending at framed
  induction framed with
  | failed scanned => cases same
  | ended scanned =>
    cases same
    obtain ⟨split,_,fits⟩ := (frameLine_ok _ _ _ _ _ bound).mp scanned
    exact ⟨_,by simpa [wire] using split,by simp [wire],by simpa using fits⟩
  | @line offset suffix line rest lines ending scanned filled framed ih =>
    obtain ⟨split,clean,fits⟩ := (frameLine_ok _ _ _ _ _ bound).mp scanned
    obtain ⟨tail,later,total,limit⟩ := ih fits same
    refine ⟨tail,?_,?_,limit⟩
    · rw [split,later,List.map_cons,wire_cons]
      simp
    · rw [total,List.map_cons,wire_cons]
      simp only [List.length_append,List.length_cons]
      omega

end Polyguard.HeaderFraming
