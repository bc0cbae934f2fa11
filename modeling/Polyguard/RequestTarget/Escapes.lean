import Polyguard.RequestTarget.Implementations

/-! Percent escapes of a path or a query.
A text is read into tokens, left to right, up to its first fault; the canonical
spelling writes every token back. Each implementation checks a text as the reader
does and renders it as the speller does, in one pass or in two. -/
namespace Polyguard.RequestTarget
open Ascii Slices TargetBytes

inductive Token where
  | literal (byte : UInt8)
  | encoded (byte : UInt8)
deriving DecidableEq, Repr

/-- An escape of two digits; a path may not hide a separator. -/
def decodeTriplet (path : Bool) (high low : UInt8) : Result Token :=
  match TargetBytes.hexValue high,TargetBytes.hexValue low with
  | some high,some low =>
    let decoded := joinNibbles high low
    if path && (decoded == 0x2f || decoded == 0x5c) then invalidTarget "encoded_separator"
    else if decoded ≤ 31 || decoded == 127 then invalidTarget "encoded_control"
    else .ok (.encoded decoded)
  | _,_ => invalidTarget "invalid_percent_encoding"

def tokens (path : Bool) : List UInt8 → Result (List Token)
  | [] => .ok []
  | byte :: bytes =>
    if byte == 0x25 then
      match bytes with
      | high :: low :: bytes => do
        let token ← decodeTriplet path high low
        let rest ← tokens path bytes
        .ok (token :: rest)
      | _ => invalidTarget "invalid_percent_encoding"
    else do
      let rest ← tokens path bytes
      .ok (.literal byte :: rest)

/-- The canonical spelling: an unreserved byte stands for itself. -/
def spell : Token → List UInt8
  | .literal byte => [byte]
  | .encoded byte =>
    if isUnreserved byte then [byte]
    else [0x25,TargetBytes.hexDigit (byte >>> 4),TargetBytes.hexDigit (byte &&& 0x0f)]

def spelling (parts : List Token) : List UInt8 := parts.flatMap spell

@[simp] theorem spelling_nil : spelling [] = [] := rfl

@[simp] theorem spelling_cons (part : Token) (parts : List Token) :
    spelling (part :: parts) = spell part ++ spelling parts := rfl

/-- Induction along the reader: a plain byte, an escape of two more bytes, or an escape cut short. -/
theorem escape_induction {motive : List UInt8 → Prop} (nil : motive [])
    (literal : ∀ byte bytes, byte ≠ 0x25 → motive bytes → motive (byte :: bytes))
    (triplet : ∀ high low bytes, motive bytes → motive (0x25 :: high :: low :: bytes))
    (short : motive [0x25]) (shorter : ∀ high, motive [0x25,high]) (text : List UInt8) : motive text := by
  induction size : text.length using Nat.strongRecOn generalizing text with
  | ind size ih =>
    subst size
    cases text with
    | nil => exact nil
    | cons byte bytes =>
      by_cases percent : byte = 0x25
      · subst percent
        rcases bytes with _ | ⟨high,_ | ⟨low,bytes⟩⟩
        · exact short
        · exact shorter high
        · exact triplet high low bytes (ih _ (by simp only [List.length_cons]; omega) bytes rfl)
      · exact literal byte bytes percent (ih _ (by simp) bytes rfl)

@[simp] theorem tokens_nil (path : Bool) : tokens path [] = .ok [] := rfl

theorem tokens_literal (path : Bool) {byte : UInt8} (bytes : List UInt8) (plain : byte ≠ 0x25) :
    tokens path (byte :: bytes) = (tokens path bytes >>= fun rest => .ok (.literal byte :: rest)) := by
  rw [tokens.eq_def]
  simp [plain]

theorem tokens_triplet (path : Bool) (high low : UInt8) (bytes : List UInt8) :
    tokens path (0x25 :: high :: low :: bytes) = (decodeTriplet path high low >>= fun token =>
      tokens path bytes >>= fun rest => .ok (token :: rest)) := by
  simp [tokens]

@[simp] theorem tokens_short (path : Bool) : tokens path [0x25] = invalidTarget "invalid_percent_encoding" := rfl

@[simp] theorem tokens_shorter (path : Bool) (high : UInt8) :
    tokens path [0x25,high] = invalidTarget "invalid_percent_encoding" := rfl

theorem decodeTriplet_cases (path : Bool) (high low : UInt8) :
    ((TargetBytes.hexValue high = none ∨ TargetBytes.hexValue low = none) ∧
      decodeTriplet path high low = invalidTarget "invalid_percent_encoding") ∨
    ∃ first second, TargetBytes.hexValue high = some first ∧ TargetBytes.hexValue low = some second ∧
      (((path && (joinNibbles first second == 0x2f || joinNibbles first second == 0x5c)) = true ∧
        decodeTriplet path high low = invalidTarget "encoded_separator") ∨
      ((path && (joinNibbles first second == 0x2f || joinNibbles first second == 0x5c)) = false ∧
        (decide (joinNibbles first second ≤ 31) || joinNibbles first second == 127) = true ∧
        decodeTriplet path high low = invalidTarget "encoded_control") ∨
      ((path && (joinNibbles first second == 0x2f || joinNibbles first second == 0x5c)) = false ∧
        (decide (joinNibbles first second ≤ 31) || joinNibbles first second == 127) = false ∧
        decodeTriplet path high low = .ok (.encoded (joinNibbles first second)))) := by
  unfold decodeTriplet
  cases TargetBytes.hexValue high with
  | none => exact .inl ⟨.inl rfl,rfl⟩
  | some first =>
    cases TargetBytes.hexValue low with
    | none => exact .inl ⟨.inr rfl,rfl⟩
    | some second =>
      refine .inr ⟨first,second,rfl,rfl,?_⟩
      cases separator : path && (joinNibbles first second == 0x2f || joinNibbles first second == 0x5c) with
      | true => exact .inl ⟨rfl,by simp only [separator,if_true]⟩
      | false =>
        cases control : decide (joinNibbles first second ≤ 31) || joinNibbles first second == 127 with
        | true => exact .inr (.inl ⟨rfl,rfl,by simp only [separator,control,if_true,Bool.false_eq_true,if_false]⟩)
        | false => exact .inr (.inr ⟨rfl,rfl,by simp only [separator,control,Bool.false_eq_true,if_false]⟩)

theorem hexValue_isSome (byte : UInt8) : (TargetBytes.hexValue byte).isSome = isAsciiHexdigit byte :=
  forall_byte (p := fun b => (TargetBytes.hexValue b).isSome = isAsciiHexdigit b) (by decide) byte

theorem hexValue_slash (byte : UInt8) (digit : (TargetBytes.hexValue byte).isSome) : byte ≠ 0x2f := by
  revert digit
  exact forall_byte (p := fun b => (TargetBytes.hexValue b).isSome → b ≠ 0x2f) (by decide) byte

theorem pushEncoded_spell (byte : UInt8) : pushEncoded byte = spell (.encoded byte) :=
  forall_byte (p := fun b => pushEncoded b = spell (.encoded b)) (by decide) byte

theorem upperHex_spell (byte : UInt8) :
    (if isUnreserved byte then [byte] else
      [0x25,RequestTargetTypedMatrix.upperHex (byte >>> 4),RequestTargetTypedMatrix.upperHex (byte &&& 0x0f)]) =
        spell (.encoded byte) :=
  forall_byte (p := fun b => (if isUnreserved b then [b] else
    [0x25,RequestTargetTypedMatrix.upperHex (b >>> 4),RequestTargetTypedMatrix.upperHex (b &&& 0x0f)]) =
      spell (.encoded b)) (by decide) byte

theorem rules_escapes (context : RequestTargetRules.PercentContext) (text output : List UInt8)
    (small : ∀ b ∈ text, isAscii b) :
    RequestTargetRules.normalizeFrom context output text =
      (tokens (decide (context = .path)) text >>= fun parts => .ok (output ++ spelling parts)) := by
  induction text using escape_induction generalizing output with
  | nil => simp [RequestTargetRules.normalizeFrom]
  | literal byte bytes plain ih =>
    have head : charFrom byte = [byte] := charFrom_ascii (small byte (by simp))
    rw [tokens_literal _ _ plain,bind_assoc]
    unfold RequestTargetRules.normalizeFrom
    simp only [beq_iff_eq,plain,if_false,head,ih _ fun b member => small b (by simp [member]),bind_ok,
      spelling_cons,spell,List.append_assoc]
  | triplet high low bytes ih =>
    rw [tokens_triplet,bind_assoc]
    unfold RequestTargetRules.normalizeFrom
    obtain ⟨missing,read⟩ | ⟨first,second,left,right,cases⟩ := decodeTriplet_cases (decide (context = .path)) high low
    · rcases missing with missing | missing <;> simp [missing,read]
    · rw [Bool.and_comm] at cases
      rcases cases with ⟨separator,read⟩ | ⟨separator,control,read⟩ | ⟨separator,control,read⟩
      · simp only [beq_self_eq_true,if_true,left,right,separator,read,invalidTarget_bind]
      · simp only [beq_self_eq_true,if_true,left,right,separator,control,read,Bool.false_eq_true,if_false,
          invalidTarget_bind]
      · simp only [beq_self_eq_true,if_true,left,right,separator,control,read,Bool.false_eq_true,if_false,bind_ok,
          ih _ fun b member => small b (by simp [member]),bind_assoc,spelling_cons,pushEncoded_spell,
          List.append_assoc]
  | short => rfl
  | shorter high => rfl

theorem typed_escapes (context : RequestTargetTypedMatrix.EscapeContext) (text output : List UInt8)
    (allowed : ∀ b ∈ text, RequestTargetTypedMatrix.isForbidden b = false) :
    RequestTargetTypedMatrix.escapesFrom context output text =
      (tokens (decide (context = .path)) text >>= fun parts => .ok (output ++ spelling parts)) := by
  induction text using escape_induction generalizing output with
  | nil => simp [RequestTargetTypedMatrix.escapesFrom]
  | literal byte bytes plain ih =>
    rw [tokens_literal _ _ plain,bind_assoc]
    unfold RequestTargetTypedMatrix.escapesFrom
    simp only [beq_iff_eq,plain,if_false,allowed byte (by simp),Bool.false_eq_true,
      ih _ fun b member => allowed b (by simp [member]),bind_ok,spelling_cons,spell,List.append_assoc]
  | triplet high low bytes ih =>
    have rest := fun output => ih output fun b member => allowed b (by simp [member])
    have percent : RequestTargetTypedMatrix.isForbidden 0x25 = false := by decide
    rw [tokens_triplet,bind_assoc]
    unfold RequestTargetTypedMatrix.escapesFrom
    obtain ⟨missing,read⟩ | ⟨first,second,left,right,cases⟩ := decodeTriplet_cases (decide (context = .path)) high low
    · rcases missing with missing | missing <;> simp [missing,read,percent]
    · rcases cases with ⟨separator,read⟩ | ⟨separator,control,read⟩ | ⟨separator,control,read⟩
      · simp only [percent,beq_self_eq_true,if_true,left,right,separator,read,Bool.false_eq_true,if_false,
          invalidTarget_bind]
      · simp only [percent,beq_self_eq_true,if_true,left,right,separator,control,read,Bool.false_eq_true,if_false,
          invalidTarget_bind]
      · simp only [percent,beq_self_eq_true,if_true,left,right,separator,control,read,Bool.false_eq_true,if_false,
          bind_ok,bind_assoc,spelling_cons,rest,← upperHex_spell,List.append_assoc]
        split <;> rfl
  | short => rfl
  | shorter high => rfl

theorem spell_ascii {token : Token} (small : ∀ byte, token = .literal byte → isAscii byte) :
    ∀ b ∈ spell token, isAscii b := by
  cases token with
  | literal byte => simpa [spell] using small byte rfl
  | encoded byte =>
    exact List.all_eq_true.mp (forall_byte (p := fun b => (spell (.encoded b)).all isAscii) (by decide) byte)

/-- The texts that are read to their end, with their tokens. -/
inductive Reads : List UInt8 → List Token → Prop where
  | nil : Reads [] []
  | literal {byte : UInt8} {bytes : List UInt8} {parts : List Token} (plain : byte ≠ 0x25) (rest : Reads bytes parts) :
      Reads (byte :: bytes) (.literal byte :: parts)
  | encoded {high low first second : UInt8} {bytes : List UInt8} {parts : List Token}
      (left : TargetBytes.hexValue high = some first) (right : TargetBytes.hexValue low = some second)
      (rest : Reads bytes parts) :
      Reads (0x25 :: high :: low :: bytes) (.encoded (joinNibbles first second) :: parts)

theorem tokens_reads {path : Bool} {text : List UInt8} {parts : List Token} (read : tokens path text = .ok parts) :
    Reads text parts := by
  induction text using escape_induction generalizing parts with
  | nil =>
    cases read
    exact .nil
  | literal byte bytes plain ih =>
    rw [tokens_literal _ _ plain] at read
    obtain ⟨rest,behind,read⟩ := bind_success read
    cases read
    exact .literal plain (ih behind)
  | triplet high low bytes ih =>
    rw [tokens_triplet] at read
    obtain ⟨token,decoded,read⟩ := bind_success read
    obtain ⟨rest,behind,read⟩ := bind_success read
    cases read
    obtain ⟨-,outcome⟩ | ⟨first,second,left,right,⟨-,outcome⟩ | ⟨-,-,outcome⟩ | ⟨-,-,outcome⟩⟩ :=
      decodeTriplet_cases path high low <;> rw [outcome] at decoded <;> cases decoded
    exact .encoded left right (ih behind)
  | short => cases read
  | shorter high => cases read

theorem tokens_literal_mem {text : List UInt8} {parts : List Token} (read : Reads text parts) :
    ∀ byte, .literal byte ∈ parts → byte ∈ text := by
  induction read with
  | nil => simp
  | literal plain rest ih =>
    intro byte member
    rcases List.mem_cons.mp member with same | inside
    · cases same
      simp
    · simp [ih byte inside]
  | encoded left right rest ih =>
    intro byte member
    rcases List.mem_cons.mp member with same | inside
    · cases same
    · simp [ih byte inside]

theorem spelling_ascii {text : List UInt8} {parts : List Token} (read : Reads text parts)
    (small : ∀ b ∈ text, isAscii b) : ∀ b ∈ spelling parts, isAscii b := by
  intro b member
  obtain ⟨token,inside,spelled⟩ := List.mem_flatMap.mp member
  apply spell_ascii _ b spelled
  rintro byte rfl
  exact small byte (tokens_literal_mem read byte inside)

theorem spell_length (token : Token) : (spell token).length ≤ 3 := by
  unfold spell
  split
  · simp
  · split <;> simp

theorem spelling_length {text : List UInt8} {parts : List Token} (read : Reads text parts) :
    (spelling parts).length ≤ text.length := by
  induction read with
  | nil => exact Nat.le_refl _
  | literal plain rest ih =>
    simp only [spelling_cons,spell,List.length_append,List.length_cons,List.length_nil]
    omega
  | @encoded high low first second bytes parts left right rest ih =>
    have width := spell_length (.encoded (joinNibbles first second))
    simp only [spelling_cons,List.length_append,List.length_cons]
    omega

theorem pipeline_checks (path : Bool) (text : List UInt8) :
    RequestTargetValidatedPipeline.validatePercentEncoding path text = (tokens path text >>= fun _ => .ok ()) := by
  induction text using escape_induction with
  | nil => rfl
  | literal byte bytes plain ih =>
    rw [tokens_literal _ _ plain,bind_assoc]
    unfold RequestTargetValidatedPipeline.validatePercentEncoding
    simp only [bne_iff_ne,ne_eq,plain,not_false_eq_true,if_true,ih,bind_ok]
  | triplet high low bytes ih =>
    rw [tokens_triplet,bind_assoc]
    unfold RequestTargetValidatedPipeline.validatePercentEncoding
    simp only [bne_self_eq_false,Bool.false_eq_true,if_false,← hexValue_isSome,
      RequestTargetValidatedPipeline.hexValue]
    obtain ⟨missing,read⟩ | ⟨first,second,left,right,cases⟩ := decodeTriplet_cases path high low
    · rcases missing with missing | missing <;> simp [missing,read]
    · simp only [left,right,Option.isSome_some,Bool.not_true,Bool.or_self,Bool.false_eq_true,if_false,
        Option.getD_some,isAsciiControl]
      rcases cases with ⟨separator,read⟩ | ⟨separator,control,read⟩ | ⟨separator,control,read⟩
      · simp only [separator,read,if_true,invalidTarget_bind]
      · simp only [separator,control,read,if_true,Bool.false_eq_true,if_false,invalidTarget_bind]
      · simp only [separator,control,read,Bool.false_eq_true,if_false,bind_ok,bind_assoc,ih]
  | short => rfl
  | shorter high => rfl

/-- Tokens as the items of the `PercentTokens` iterator. -/
def percentToken : Token → RequestTargetValidatedPipeline.PercentToken
  | .literal byte => .literal byte
  | .encoded byte => .encoded byte

theorem pipeline_tokens {text : List UInt8} {parts : List Token} (read : Reads text parts) :
    RequestTargetValidatedPipeline.percentTokens text = parts.map percentToken := by
  induction read with
  | nil => rfl
  | literal plain rest ih =>
    unfold RequestTargetValidatedPipeline.percentTokens
    simp only [beq_iff_eq,plain,if_false,ih,List.map_cons,percentToken]
  | encoded left right rest ih =>
    unfold RequestTargetValidatedPipeline.percentTokens
    simp only [beq_self_eq_true,if_true,ih,List.map_cons,percentToken,RequestTargetValidatedPipeline.hexValue,
      left,right,Option.getD_some]

theorem pushToken_spell {token : Token} (small : ∀ byte, token = .literal byte → isAscii byte) (output : List UInt8) :
    RequestTargetValidatedPipeline.pushToken output (percentToken token) = output ++ spell token := by
  cases token with
  | literal byte => simp [percentToken,RequestTargetValidatedPipeline.pushToken,spell,charFrom_ascii (small byte rfl)]
  | encoded byte => simp [percentToken,RequestTargetValidatedPipeline.pushToken,pushEncoded_spell]

theorem pipeline_component {text : List UInt8} {parts : List Token} (read : Reads text parts)
    (small : ∀ b ∈ text, isAscii b) :
    RequestTargetValidatedPipeline.canonicalComponent text = spelling parts := by
  have literals := tokens_literal_mem read
  unfold RequestTargetValidatedPipeline.canonicalComponent
  rw [pipeline_tokens read,List.foldl_map]
  clear read
  suffices all : ∀ output, parts.foldl (fun output token =>
      RequestTargetValidatedPipeline.pushToken output (percentToken token)) output = output ++ spelling parts by
    simpa using all []
  induction parts with
  | nil => simp
  | cons token parts ih =>
    intro output
    have head : ∀ byte, token = .literal byte → isAscii byte := by
      rintro byte rfl
      exact small byte (literals byte (by simp))
    rw [List.foldl_cons,pushToken_spell head,ih fun byte inside => literals byte (by simp [inside]),spelling_cons,
      List.append_assoc]

theorem offsets_checks (path : Bool) (text : List UInt8) :
    RequestTargetInvariantOffsets.validatePercentTriplets path text = (tokens path text >>= fun _ => .ok ()) := by
  induction text using escape_induction with
  | nil => rfl
  | literal byte bytes plain ih =>
    rw [tokens_literal _ _ plain,bind_assoc]
    unfold RequestTargetInvariantOffsets.validatePercentTriplets
    simp only [bne_iff_ne,ne_eq,plain,not_false_eq_true,if_true,ih,bind_ok]
  | triplet high low bytes ih =>
    rw [tokens_triplet,bind_assoc]
    unfold RequestTargetInvariantOffsets.validatePercentTriplets
    simp only [bne_self_eq_false,Bool.false_eq_true,if_false]
    obtain ⟨missing,read⟩ | ⟨first,second,left,right,cases⟩ := decodeTriplet_cases path high low
    · cases left : TargetBytes.hexValue high with
      | none => simp [read]
      | some first =>
        have absent : TargetBytes.hexValue low = none := by simpa [left] using missing
        simp [absent,read]
    · simp only [left,right]
      rcases cases with ⟨separator,read⟩ | ⟨separator,control,read⟩ | ⟨separator,control,read⟩
      · simp only [separator,read,if_true,invalidTarget_bind]
      · simp only [separator,control,read,if_true,Bool.false_eq_true,if_false,invalidTarget_bind]
      · simp only [separator,control,read,Bool.false_eq_true,if_false,bind_ok,bind_assoc,ih]
  | short => rfl
  | shorter high => rfl

theorem offsets_append {text : List UInt8} {parts : List Token} (read : Reads text parts)
    (small : ∀ b ∈ text, isAscii b) (output : List UInt8) :
    RequestTargetInvariantOffsets.appendCanonical output text = output ++ spelling parts := by
  induction read generalizing output with
  | nil => simp [RequestTargetInvariantOffsets.appendCanonical]
  | literal plain rest ih =>
    unfold RequestTargetInvariantOffsets.appendCanonical
    simp only [bne_iff_ne,ne_eq,plain,not_false_eq_true,if_true,charFrom_ascii (small _ List.mem_cons_self),
      ih fun b member => small b (by simp [member]),spelling_cons,spell,List.append_assoc]
  | encoded left right rest ih =>
    unfold RequestTargetInvariantOffsets.appendCanonical
    simp only [bne_self_eq_false,Bool.false_eq_true,if_false,RequestTargetInvariantOffsets.decodedByte,left,right,
      Option.getD_some,ih fun b member => small b (by simp [member]),pushEncoded_spell,spelling_cons,
      List.append_assoc]

/-- Tokens as the items of the `ComponentTokens` iterator. -/
def componentToken : Token → RequestTargetComposableValidators.ComponentToken
  | .literal byte => .literal byte
  | .encoded byte => .encoded byte

theorem composable_checks (kind : RequestTargetComposableValidators.ComponentKind) (text : List UInt8) :
    RequestTargetComposableValidators.validateComponent text kind =
      (tokens (decide (kind = .path)) text >>= fun _ => .ok ()) := by
  unfold RequestTargetComposableValidators.validateComponent
  induction text using escape_induction with
  | nil => rfl
  | literal byte bytes plain ih =>
    rw [tokens_literal _ _ plain,bind_assoc]
    unfold RequestTargetComposableValidators.componentTokens
    simp only [bne_iff_ne,ne_eq,plain,not_false_eq_true,if_true,RequestTargetComposableValidators.checkTokens,
      RequestTargetComposableValidators.checkToken,ih,bind_ok]
  | triplet high low bytes ih =>
    rw [tokens_triplet,bind_assoc]
    unfold RequestTargetComposableValidators.componentTokens
    simp only [bne_self_eq_false,Bool.false_eq_true,if_false]
    obtain ⟨missing,read⟩ | ⟨first,second,left,right,cases⟩ := decodeTriplet_cases (decide (kind = .path)) high low
    · rcases missing with missing | missing <;>
        simp [missing,read,RequestTargetComposableValidators.checkTokens]
    · rw [Bool.and_comm] at cases
      simp only [left,right,RequestTargetComposableValidators.checkTokens,
        RequestTargetComposableValidators.checkToken,bind_ok]
      rcases cases with ⟨separator,read⟩ | ⟨separator,control,read⟩ | ⟨separator,control,read⟩
      · simp only [separator,read,if_true,invalidTarget_bind]
      · simp only [separator,control,read,if_true,Bool.false_eq_true,if_false,invalidTarget_bind]
      · simp only [separator,control,read,Bool.false_eq_true,if_false,bind_ok,bind_assoc,ih]
  | short => rfl
  | shorter high => rfl

theorem composable_tokens {text : List UInt8} {parts : List Token} (read : Reads text parts) :
    RequestTargetComposableValidators.componentTokens text = parts.map fun part => .ok (componentToken part) := by
  induction read with
  | nil => rfl
  | literal plain rest ih =>
    unfold RequestTargetComposableValidators.componentTokens
    simp only [bne_iff_ne,ne_eq,plain,not_false_eq_true,if_true,ih,List.map_cons,componentToken]
  | encoded left right rest ih =>
    unfold RequestTargetComposableValidators.componentTokens
    simp only [bne_self_eq_false,Bool.false_eq_true,if_false,left,right,ih,List.map_cons,componentToken]

theorem composable_render {text : List UInt8} {parts : List Token} (read : Reads text parts)
    (small : ∀ b ∈ text, isAscii b) (output : List UInt8) :
    RequestTargetComposableValidators.renderComponentInto output text = output ++ spelling parts := by
  have literals := tokens_literal_mem read
  unfold RequestTargetComposableValidators.renderComponentInto
  rw [composable_tokens read,List.foldl_map]
  clear read
  induction parts generalizing output with
  | nil => simp
  | cons token parts ih =>
    have head : RequestTargetComposableValidators.renderToken output (.ok (componentToken token)) =
        output ++ spell token := by
      cases token with
      | literal byte =>
        simp [componentToken,RequestTargetComposableValidators.renderToken,spell,
          charFrom_ascii (small byte (literals byte (by simp)))]
      | encoded byte => simp [componentToken,RequestTargetComposableValidators.renderToken,pushEncoded_spell]
    rw [List.foldl_cons,head,ih _ fun byte inside => literals byte (by simp [inside]),spelling_cons,
      List.append_assoc]

/-- A dot, plain or encoded. -/
def isDot : Token → Bool
  | .literal byte => byte == 0x2e
  | .encoded byte => byte == 0x2e

/-- The length of a segment of one or two dots, zero for every other segment. -/
def dotCount (parts : List Token) : Nat := if parts.all isDot && parts.length ≤ 2 then parts.length else 0

theorem spell_dot (token : Token) :
    (isDot token ∧ spell token = [0x2e]) ∨ (isDot token = false ∧ (spell token).head? ≠ some 0x2e ∧ spell token ≠ []) := by
  cases token with
  | literal byte =>
    by_cases dot : byte = 0x2e
    · exact .inl (by simp [isDot,spell,dot])
    · exact .inr (by simp [isDot,spell,dot])
  | encoded byte =>
    exact forall_byte (p := fun b => (isDot (.encoded b) ∧ spell (.encoded b) = [0x2e]) ∨
      (isDot (.encoded b) = false ∧ (spell (.encoded b)).head? ≠ some 0x2e ∧ spell (.encoded b) ≠ []))
      (by decide) byte

theorem spelling_dots (parts : List Token) (count : Nat) :
    spelling parts = List.replicate count 0x2e ↔ parts.all isDot ∧ parts.length = count := by
  induction parts generalizing count with
  | nil => cases count <;> simp [List.replicate_succ]
  | cons token parts ih =>
    rw [spelling_cons]
    rcases spell_dot token with ⟨dot,spelled⟩ | ⟨other,head,some⟩
    · cases count with
      | zero => simp [spelled]
      | succ count => simp [spelled,dot,List.replicate_succ,ih]
    · have differs : spell token ++ spelling parts ≠ List.replicate count 0x2e := by
        intro same
        apply head
        have first := congrArg List.head? same
        rw [List.head?_append_of_ne_nil _ some] at first
        cases count with
        | zero => simp [some] at same
        | succ count => simpa [List.replicate_succ] using first
      simp [differs,other]

theorem dotCount_eq_iff (parts : List Token) {count : Nat} (positive : 0 < count) (small : count ≤ 2) :
    dotCount parts = count ↔ spelling parts = List.replicate count 0x2e := by
  rw [spelling_dots,dotCount]
  split
  · rename_i counted
    simp only [Bool.and_eq_true,decide_eq_true_eq] at counted
    simp [counted.1]
  · rename_i other
    simp only [Bool.and_eq_true,decide_eq_true_eq] at other
    constructor
    · intro zero
      omega
    · rintro ⟨dots,length⟩
      exact absurd ⟨dots,by omega⟩ other

theorem dotCount_one (parts : List Token) : dotCount parts = 1 ↔ spelling parts = ascii "." :=
  dotCount_eq_iff parts (by decide) (by decide)

theorem dotCount_two (parts : List Token) : dotCount parts = 2 ↔ spelling parts = ascii ".." :=
  dotCount_eq_iff parts (by decide) (by decide)

theorem decodedUnreserved_dot (token : Token) :
    (RequestTargetValidatedPipeline.decodedUnreserved (percentToken token) == 0x2e) = isDot token := by
  cases token with
  | literal byte => rfl
  | encoded byte =>
    exact forall_byte (p := fun b => (RequestTargetValidatedPipeline.decodedUnreserved (.encoded b) == 0x2e) =
      isDot (.encoded b)) (by decide) byte

theorem canonicalByte_dot (token : Token) :
    (RequestTargetComposableValidators.canonicalByte (componentToken token) == some 0x2e) = isDot token := by
  cases token with
  | literal byte => rfl
  | encoded byte =>
    exact forall_byte (p := fun b => (RequestTargetComposableValidators.canonicalByte (.encoded b) == some 0x2e) =
      isDot (.encoded b)) (by decide) byte

theorem pipeline_dots {text : List UInt8} {parts : List Token} (read : Reads text parts) :
    RequestTargetValidatedPipeline.decodedDotKind text =
      if dotCount parts = 1 then some 1 else if dotCount parts = 2 then some 2 else none := by
  have one : ascii "." = [0x2e] := rfl
  have two : ascii ".." = [0x2e,0x2e] := rfl
  unfold RequestTargetValidatedPipeline.decodedDotKind dotCount
  rw [pipeline_tokens read]
  rcases parts with _ | ⟨first,_ | ⟨second,_ | ⟨third,rest⟩⟩⟩
  · rfl
  · cases dot : isDot first <;> simp_all [← decodedUnreserved_dot]
  · cases dot : isDot first <;> cases next : isDot second <;> simp_all [← decodedUnreserved_dot]
  · simp [one,two]

theorem composable_dots {text : List UInt8} {parts : List Token} (read : Reads text parts) :
    RequestTargetComposableValidators.dotSegment text = .ok (dotCount parts) := by
  unfold RequestTargetComposableValidators.dotSegment dotCount
  rw [composable_tokens read]
  rcases parts with _ | ⟨first,_ | ⟨second,_ | ⟨third,rest⟩⟩⟩
  · rfl
  · cases dot : isDot first <;>
      simp_all [RequestTargetComposableValidators.transpose,Except.map,← canonicalByte_dot]
  · cases dot : isDot first <;> cases next : isDot second <;>
      simp_all [RequestTargetComposableValidators.transpose,Except.map,← canonicalByte_dot]
  · simp [RequestTargetComposableValidators.transpose,Except.map]

theorem offsets_count {text : List UInt8} {parts : List Token} (read : Reads text parts) (count : Nat)
    (bound : count ≤ 2) :
    RequestTargetInvariantOffsets.dotCountFrom count text =
      if parts.all isDot && count + parts.length ≤ 2 then count + parts.length else 0 := by
  induction read generalizing count with
  | nil => simp [RequestTargetInvariantOffsets.dotCountFrom,bound]
  | @literal byte bytes parts plain rest ih =>
    unfold RequestTargetInvariantOffsets.dotCountFrom
    simp only [beq_iff_eq,plain,if_false]
    by_cases dot : byte = 0x2e
    · by_cases full : count = 2
      · simp [dot,full]
      · have next := ih (count + 1) (by omega)
        simp [dot,full,next,isDot,Nat.add_right_comm,Nat.add_assoc]
    · simp [dot,isDot]
  | @encoded high low first second bytes parts left right rest ih =>
    unfold RequestTargetInvariantOffsets.dotCountFrom
    simp only [beq_self_eq_true,if_true,RequestTargetInvariantOffsets.decodedByte,left,right,Option.getD_some]
    by_cases dot : joinNibbles first second = 0x2e
    · by_cases full : count = 2
      · simp [dot,full]
      · have next := ih (count + 1) (by omega)
        simp [dot,full,next,isDot,Nat.add_right_comm,Nat.add_assoc]
    · simp [dot,isDot]

theorem offsets_dots {text : List UInt8} {parts : List Token} (read : Reads text parts) :
    RequestTargetInvariantOffsets.decodedDotCount text = dotCount parts := by
  unfold RequestTargetInvariantOffsets.decodedDotCount
  rw [offsets_count read 0 (by omega),dotCount,Nat.zero_add]

end Polyguard.RequestTarget
