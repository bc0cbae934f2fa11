import Mathlib.Data.Nat.Bitwise
import Polyguard.Chunk.Grammar

/-! Each implementation of `parse_chunk_metadata`, brought to the grammar.
The boundary and the size are the same for all five. The extension list is the
outcome of `readAll` for the span checker and the guarded parser, and the same
up to one or two faults for the pipeline and the rule iterator. -/
namespace Polyguard.ChunkRefinement
open Ascii Slices ChunkGrammar

section Boundaries

private theorem control_breaks (byte : UInt8) :
    (byte == 0x0d || byte == 0x0a || byte ≤ 31 || byte == 127) = isAsciiControl byte :=
  forall_byte (p := fun b => (b == 0x0d || b == 0x0a || b ≤ 31 || b == 127) = isAsciiControl b)
    (by decide) byte

private theorem control_endings (byte : UInt8) :
    (byte == 0x0d || byte == 0x0a || isAsciiControl byte) = isAsciiControl byte ∧
      (byte = 0x0d → isAsciiControl byte) :=
  forall_byte (p := fun b => (b == 0x0d || b == 0x0a || isAsciiControl b) = isAsciiControl b ∧
    (b = 0x0d → isAsciiControl b)) (by decide) byte

/-- The line and the bytes it consumes, from its length. -/
def framed (input : List UInt8) : Result (List UInt8 × Nat) :=
  frameFrom 0 input >>= fun stop => .ok (input.take stop,stop + 2)

private def settled : Option ChunkRulePipeline.Boundary → Result Nat
  | some (.complete stop) => .ok stop
  | some .invalid => invalidChunk "invalid_line_ending_or_control"
  | some .overLimit => lineLimit (chunkLineBytes + 1)
  | none => .error .incomplete

theorem pipeline_line (input : List UInt8) : ChunkRulePipeline.frameLine input = framed input := by
  have scan (offset : Nat) (suffix : List UInt8) :
      settled (ChunkRulePipeline.boundaryFrom offset suffix) = frameFrom offset suffix := by
    induction suffix generalizing offset with
    | nil => rfl
    | cons byte bytes ih =>
      rw [ChunkRulePipeline.boundaryFrom,frameFrom,control_breaks,← ih]
      by_cases ended : byte = 0x0d ∧ bytes.head? = some 0x0a
      · simp [ended,settled]
      · have unended : (byte == 0x0d && bytes.head? == some 0x0a) = false := by
          simpa using ended
        rw [unended,if_neg ended]
        by_cases control : isAsciiControl byte = true
        · simp [control,settled]
        · by_cases limit : offset = chunkLineBytes <;> simp [control,limit,settled]
  unfold ChunkRulePipeline.frameLine framed
  rw [← scan]
  cases ChunkRulePipeline.boundaryFrom 0 input with
  | none => rfl
  | some boundary => cases boundary <;> rfl

private def noted : Option ChunkSymbolRuleIterator.LineEvent → Result Nat
  | some (.complete length) => .ok length
  | some .invalidControl => invalidChunk "invalid_line_ending_or_control"
  | some (.tooLong actual) => lineLimit actual
  | none => .error .incomplete

theorem iterator_line (input : List UInt8) :
    ChunkSymbolRuleIterator.boundedLine input = (frameFrom 0 input >>= fun stop => .ok (input.take stop)) := by
  have scan (offset : Nat) (suffix : List UInt8) :
      noted (ChunkSymbolRuleIterator.eventFrom offset suffix) = frameFrom offset suffix := by
    induction suffix generalizing offset with
    | nil => rfl
    | cons byte bytes ih =>
      obtain ⟨endings,carriage⟩ := control_endings byte
      rw [ChunkSymbolRuleIterator.eventFrom,frameFrom,← ih]
      by_cases cr : byte = 0x0d
      · have control := carriage cr
        by_cases following : bytes.head? = some 0x0a
        · simp [cr,following,noted]
        · simp [cr,following,noted,show isAsciiControl 0x0d = true by decide]
      · have same : (byte == 0x0a || isAsciiControl byte) = isAsciiControl byte := by
          simpa [cr] using endings
        have unended : ¬ (byte = 0x0d ∧ bytes.head? = some 0x0a) := by simp [cr]
        rw [same,if_neg (by simpa using cr),if_neg unended]
        by_cases control : isAsciiControl byte = true
        · simp [control,noted]
        · by_cases limit : offset = chunkLineBytes <;> simp [control,limit,noted]
  unfold ChunkSymbolRuleIterator.boundedLine
  rw [← scan]
  cases ChunkSymbolRuleIterator.eventFrom 0 input with
  | none => rfl
  | some event => cases event <;> rfl

theorem guarded_line (input : List UInt8) : ChunkGuardedParts.validatedLine input = framed input := by
  have scan (offset : Nat) (suffix : List UInt8) (bound : offset ≤ chunkLineBytes) :
      ChunkGuardedParts.validatedFrom input offset suffix =
        (frameFrom offset suffix >>= fun stop => .ok (input.take stop,stop + 2)) := by
    induction suffix generalizing offset with
    | nil => rfl
    | cons byte bytes ih =>
      obtain ⟨endings,_⟩ := control_endings byte
      rw [ChunkGuardedParts.validatedFrom,frameFrom,endings,if_neg (by omega)]
      by_cases ended : byte = 0x0d ∧ bytes.head? = some 0x0a
      · simp [ended]
      · have unended : (byte == 0x0d && bytes.head? == some 0x0a) = false := by simpa using ended
        rw [unended,if_neg ended]
        by_cases control : isAsciiControl byte = true
        · simp [control]
        · by_cases limit : offset = chunkLineBytes
          · simp [control,limit]
          · simp [control,limit,ih (offset + 1) (by omega)]
  exact scan 0 input (by decide)

theorem spans_line (input : List UInt8) : ChunkInvariantSpans.isolateLine input = framed input := by
  have scan (offset : Nat) (suffix : List UInt8) (bound : offset ≤ chunkLineBytes) :
      ChunkInvariantSpans.isolateFrom input offset suffix =
        (frameFrom offset suffix >>= fun stop => .ok (input.take stop,stop + 2)) := by
    induction suffix generalizing offset with
    | nil => rfl
    | cons byte bytes ih =>
      rw [ChunkInvariantSpans.isolateFrom,frameFrom,if_pos bound]
      by_cases ended : byte = 0x0d ∧ bytes.head? = some 0x0a
      · simp [ended]
      · have unended : (byte == 0x0d && bytes.head? == some 0x0a) = false := by simpa using ended
        rw [unended,if_neg ended]
        by_cases control : isAsciiControl byte = true
        · simp [control]
        · by_cases limit : offset = chunkLineBytes
          · simp [control,limit]
          · simp [control,limit,ih (offset + 1) (by omega)]
  exact scan 0 input (by decide)

theorem segments_line (input : List UInt8) : ChunkComposableSegments.boundedLine input = framed input := by
  have scan (offset : Nat) (suffix : List UInt8) :
      ChunkComposableSegments.boundedFrom input offset suffix =
        (frameFrom offset suffix >>= fun stop => .ok (input.take stop,stop + 2)) := by
    induction suffix generalizing offset with
    | nil => rfl
    | cons byte bytes ih =>
      rw [ChunkComposableSegments.boundedFrom,frameFrom]
      by_cases ended : byte = 0x0d ∧ bytes.head? = some 0x0a
      · simp [ended]
      · have unended : (byte == 0x0d && bytes.head? == some 0x0a) = false := by simpa using ended
        rw [unended,if_neg ended]
        by_cases control : isAsciiControl byte = true
        · simp [control]
        · by_cases limit : offset = chunkLineBytes
          · simp [control,limit]
          · simp [control,limit,ih (offset + 1)]
  exact scan 0 input

end Boundaries

section Sizes

private theorem hexValue_spec (byte : UInt8) :
    (isAsciiHexdigit byte = true → ∃ digit, hexValue byte = some digit ∧ digit < 16) ∧
      (isAsciiHexdigit byte = false → hexValue byte = none) := by
  have table := forall_byte (p := fun b => (isAsciiHexdigit b = true → (hexValue b).any (· < 16) = true) ∧
    (isAsciiHexdigit b = false → hexValue b = none)) (by decide) byte
  refine ⟨fun hex => ?_,table.2⟩
  simpa [Option.any_eq_true] using table.1 hex

private theorem hexDigit_lt (byte : UInt8) : hexDigit byte < 16 := by
  unfold hexDigit
  cases hex : isAsciiHexdigit byte with
  | true =>
    obtain ⟨digit,found,small⟩ := (hexValue_spec byte).1 hex
    simpa [found] using small
  | false => simp [(hexValue_spec byte).2 hex]

theorem guarded_size (digits : List UInt8) : ChunkGuardedParts.checkedSize digits = chunkSize digits := by
  unfold ChunkGuardedParts.checkedSize chunkSize hexNumber
  generalize digits.foldl (fun value byte => value * 16 + hexDigit byte) 0 = size
  generalize digits.all isAsciiHexdigit = hex
  cases hex <;> simp

/-- The lengths that a size may have. -/
private theorem size_length (digits : List UInt8) :
    (!(1 ≤ digits.length && digits.length ≤ 16)) = decide (digits = [] ∨ digits.length > 16) := by
  rw [Bool.eq_iff_iff]
  simp only [← List.length_eq_zero_iff,Bool.not_eq_true',Bool.and_eq_false_iff,decide_eq_false_iff_not,
    decide_eq_true_iff]
  omega

theorem segments_size (digits : List UInt8) : ChunkComposableSegments.parseSize digits = chunkSize digits := by
  unfold ChunkComposableSegments.parseSize chunkSize hexNumber
  rw [size_length]
  generalize digits.foldl (fun value byte => value * 16 + hexDigit byte) 0 = size
  generalize digits.all isAsciiHexdigit = hex
  cases hex <;> simp

/-- The length check before the digits are read is the same as after it. -/
private theorem size_checks (digits : List UInt8) (value : Nat) :
    (if !(1 ≤ digits.length && digits.length ≤ 16) then invalidChunk "invalid_size"
      else (if digits.all isAsciiHexdigit = false then invalidChunk "invalid_size" else .ok value) >>= fun size =>
        if size > chunkSizeLimit then sizeLimit size else .ok size) =
      if digits = [] ∨ digits.length > 16 ∨ digits.all isAsciiHexdigit = false then invalidChunk "invalid_size"
      else if value > chunkSizeLimit then sizeLimit value else .ok value := by
  rw [size_length]
  generalize digits.all isAsciiHexdigit = hex
  cases hex <;> simp

theorem spans_size (digits : List UInt8) : ChunkInvariantSpans.validateSize digits = chunkSize digits := by
  have run (size : Nat) (bytes : List UInt8) :
      ChunkInvariantSpans.sizeFrom size bytes =
        if bytes.all isAsciiHexdigit = false then invalidChunk "invalid_size"
        else .ok (bytes.foldl (fun value byte => value * 16 + hexDigit byte) size) := by
    induction bytes generalizing size with
    | nil => simp [ChunkInvariantSpans.sizeFrom]
    | cons byte bytes ih =>
      rw [ChunkInvariantSpans.sizeFrom]
      cases hex : isAsciiHexdigit byte with
      | false => simp [(hexValue_spec byte).2 hex,hex]
      | true =>
        obtain ⟨digit,found,small⟩ := (hexValue_spec byte).1 hex
        have shifted : (size <<< 4) ||| digit = size * 16 + digit := by
          rw [← Nat.shiftLeft_add_eq_or_of_lt small,Nat.shiftLeft_eq]
        simp [found,ih,hex,shifted,hexDigit]
  unfold ChunkInvariantSpans.validateSize chunkSize hexNumber
  rw [run]
  exact size_checks digits _

theorem iterator_size (digits : List UInt8) : ChunkSymbolRuleIterator.parseSize digits = chunkSize digits := by
  have run (size : Nat) (bytes : List UInt8) :
      bytes.foldlM ChunkSymbolRuleIterator.sizeStep size =
        if bytes.all isAsciiHexdigit = false then invalidChunk "invalid_size"
        else .ok (bytes.foldl (fun value byte => value * 16 + hexDigit byte) size) := by
    induction bytes generalizing size with
    | nil => simp
    | cons byte bytes ih =>
      rw [List.foldlM_cons,ChunkSymbolRuleIterator.sizeStep]
      cases hex : isAsciiHexdigit byte with
      | false => simp [ChunkSymbolRuleIterator.accepts,hex]
      | true => simp [ChunkSymbolRuleIterator.accepts,hex,ih]
  unfold ChunkSymbolRuleIterator.parseSize chunkSize hexNumber
  rw [run]
  exact size_checks digits _

/-- Sixteen hexadecimal digits fit a 64-bit value. -/
private theorem checked_digits (value count : Nat) (bytes : List UInt8) (small : value < 16 ^ count)
    (fits : count + bytes.length ≤ 16) :
    bytes.foldlM ChunkRulePipeline.sizeStep value =
      some (bytes.foldl (fun value byte => value * 16 + hexDigit byte) value) := by
  induction bytes generalizing value count with
  | nil => rfl
  | cons byte bytes ih =>
    simp only [List.length_cons] at fits
    have digit := hexDigit_lt byte
    have grown : 16 ^ (count + 1) ≤ 16 ^ 16 := Nat.pow_le_pow_right (by decide) (by omega)
    have next : value * 16 + hexDigit byte < 16 ^ (count + 1) := by
      rw [Nat.pow_succ]
      omega
    have limit : u64Max + 1 = 16 ^ 16 := by decide
    have step : ChunkRulePipeline.sizeStep value byte = some (value * 16 + hexDigit byte) := by
      unfold ChunkRulePipeline.sizeStep checkedMul checkedAdd
      rw [if_pos (by omega)]
      simp only [Option.bind_some]
      rw [if_pos (by omega)]
    rw [List.foldlM_cons,step]
    exact ih _ (count + 1) next (by omega)

theorem pipeline_size (digits : List UInt8) : ChunkRulePipeline.parseSize digits = chunkSize digits := by
  unfold ChunkRulePipeline.parseSize chunkSize hexNumber
  rw [size_length]
  by_cases long : digits.length > 16
  · simp [long]
  · rw [checked_digits 0 0 digits (by decide) (by omega)]
    generalize digits.foldl (fun value byte => value * 16 + hexDigit byte) 0 = size
    generalize digits.all isAsciiHexdigit = hex
    cases hex <;> simp

end Sizes

/-- The reason reported for a fault; the implementations differ in what they say of torn text. -/
def reason (torn : String) : Fault → String
  | .name => "invalid_extension_name"
  | .value => "invalid_extension_value"
  | .quoted => "invalid_quoted_string"
  | .stray _ => "invalid_extension_value"
  | .torn => torn

def answered {α β : Type} (torn : String) (denote : α → β) : Except Fault α → Result β
  | .error fault => invalidChunk (reason torn fault)
  | .ok value => .ok (denote value)

theorem answered_bind {α β γ δ : Type} (torn : String) (denote : α → β) (later : γ → δ) (read : Except Fault α)
    (next : α → γ) (result : β → δ) (same : ∀ value, result (denote value) = later (next value)) :
    (answered torn denote read >>= fun value => .ok (result value)) =
      answered torn later (read >>= fun value => .ok (next value)) := by
  cases read with
  | error fault => rfl
  | ok value =>
    change Except.ok (result (denote value)) = Except.ok (later (next value))
    rw [same]

section Guarded

private theorem remainder_following (after : List UInt8) :
    ChunkGuardedParts.remainder after = match following after with
      | none => invalidChunk "invalid_extension_value"
      | some rest => .ok rest := by
  cases after with
  | nil => rfl
  | cons byte rest => by_cases semicolon : byte = 0x3b <;> simp [ChunkGuardedParts.remainder,following,semicolon]

private theorem guarded_closed {raw : List UInt8} (quotable : Quotable raw) (after unescaped : List UInt8) :
    ChunkGuardedParts.quotedFrom unescaped (raw ++ 0x22 :: after) =
      (quotedText (unescaped ++ unescape raw) >>= fun value =>
        ChunkGuardedParts.remainder after >>= fun rest => .ok (value,rest)) := by
  induction quotable generalizing unescaped with
  | nil =>
    conv_lhs => unfold ChunkGuardedParts.quotedFrom
    simp [unescape]
  | @plain byte raw notQuote notEscape quotable ih =>
    rw [List.cons_append]
    conv_lhs => unfold ChunkGuardedParts.quotedFrom
    simp [notQuote,notEscape,ih]
  | @pair byte raw quotable ih =>
    rw [List.cons_append,List.cons_append]
    conv_lhs => unfold ChunkGuardedParts.quotedFrom
    simp [ih]

private theorem guarded_unclosed {bytes : List UInt8} (unclosed : Unclosed bytes) (unescaped : List UInt8) :
    ChunkGuardedParts.quotedFrom unescaped bytes = invalidChunk "invalid_quoted_string" := by
  induction unclosed generalizing unescaped with
  | nil => rfl
  | dangling => rfl
  | plain notQuote notEscape _ ih =>
    conv_lhs => unfold ChunkGuardedParts.quotedFrom
    simp [notQuote,notEscape,ih]
  | pair _ ih =>
    conv_lhs => unfold ChunkGuardedParts.quotedFrom
    simp [ih]

def valueParts (parts : Value × Option (List UInt8)) : List UInt8 × Option (List UInt8) := (parts.1.denote,parts.2)

def extensionParts (parts : Extension × Option (List UInt8)) : ChunkExtension × Option (List UInt8) :=
  (parts.1.denote,parts.2)

theorem guarded_value (body : List UInt8) :
    ChunkGuardedParts.parseValue body = answered "invalid_quoted_string" valueParts (readBody body) := by
  unfold ChunkGuardedParts.parseValue readBody
  by_cases quote : body.head? = some 0x22
  · rw [if_pos (by simpa using quote),if_pos quote,List.drop_one]
    rcases quote_cases body.tail with unclosed | ⟨raw,after,split,quotable⟩
    · rw [guarded_unclosed unclosed,readQuoted_unclosed unclosed]
      rfl
    · rw [split,guarded_closed quotable,readQuoted_closed quotable,remainder_following,List.nil_append]
      unfold quotedText Utf8.fromUtf8 readClosed
      cases Utf8.valid (unescape raw) <;> cases following after <;> rfl
  · rw [if_neg (by simpa using quote),if_neg quote]
    unfold readToken
    simp only [position_takeWhile,take_takeWhile,drop_takeWhile,List.length_eq_zero_iff,remainder_following]
    by_cases empty : body.takeWhile isTchar = []
    · rw [if_pos empty,if_pos empty]
      rfl
    · rw [if_neg empty,if_neg empty]
      cases following (body.dropWhile isTchar) <;> rfl

theorem guarded_extension (text : List UInt8) :
    ChunkGuardedParts.parseExtension text =
      answered "invalid_quoted_string" extensionParts (readExtension text) := by
  have chars := name_chars (List.all_takeWhile (p := isTchar) (l := text))
  have names : ((text.takeWhile isTchar).length = 0 || (text.takeWhile isTchar).length > extensionNameBytes) =
      !withinName (text.takeWhile isTchar).length := by
    rw [Bool.eq_iff_iff]
    simp [withinName]
  unfold ChunkGuardedParts.parseExtension readExtension
  simp only [position_takeWhile,take_takeWhile,drop_takeWhile,chars,names]
  by_cases within : withinName (text.takeWhile isTchar).length = true
  · simp only [within]
    cases text.dropWhile isTchar with
    | nil => rfl
    | cons byte body =>
      by_cases semicolon : byte = 0x3b
      · simp [semicolon]
        rfl
      · by_cases equals : byte = 0x3d
        · simp only [equals,guarded_value]
          exact answered_bind _ valueParts extensionParts (readBody body)
            (fun parts => (⟨text.takeWhile isTchar,some parts.1⟩,parts.2))
            (fun parts => (⟨(text.takeWhile isTchar).map toAsciiLowercase,some parts.1⟩,parts.2)) fun _ => rfl
        · simp [semicolon,equals]
          rfl
  · simp [within]
    rfl

/-- The result for an extension list from its reading. -/
def listed (torn : String) : List Extension × Ending → Result (List ChunkExtension)
  | (extensions,.done) => .ok (extensions.map Extension.denote)
  | (_,.overflow) => extensionLimit (chunkExtensions + 1)
  | (_,.faulty fault) => invalidChunk (reason torn fault)

theorem listed_cons (torn : String) (extension : Extension) (later : List Extension × Ending) :
    listed torn (extension :: later.1,later.2) =
      (listed torn later >>= fun extensions => .ok (extension.denote :: extensions)) := by
  obtain ⟨extensions,ending⟩ := later
  cases ending <;> rfl

theorem guarded_list (count fuel : Nat) (seen : List ChunkExtension) (text : List UInt8) (enough : count < fuel)
    (room : seen.length + count = chunkExtensions) :
    ChunkGuardedParts.parseFrom fuel seen text =
      (listed "invalid_quoted_string" (readAll count (some text)) >>= fun later => .ok (seen ++ later)) := by
  induction count generalizing fuel seen text with
  | zero =>
    obtain ⟨fuel,rfl⟩ := Nat.exists_eq_add_one.mpr enough
    rw [ChunkGuardedParts.parseFrom,if_pos (by omega)]
    rfl
  | succ count ih =>
    obtain ⟨fuel,rfl⟩ := Nat.exists_eq_add_one.mpr (show 0 < fuel by omega)
    rw [ChunkGuardedParts.parseFrom,if_neg (by omega),guarded_extension,readAll]
    cases readExtension text with
    | error fault => rfl
    | ok parts =>
      obtain ⟨extension,rest⟩ := parts
      cases rest with
      | none =>
        cases count <;> rfl
      | some next =>
        have later := ih fuel (seen ++ [extension.denote]) next (by omega) (by simp; omega)
        simp only [answered,extensionParts,bind_ok,later,listed_cons,bind_assoc,List.append_assoc,
          List.singleton_append]

end Guarded

section Pipeline

private theorem classify_token (byte : UInt8) :
    (ChunkRulePipeline.classify byte != .token) = !isTchar byte :=
  forall_byte (p := fun b => (ChunkRulePipeline.classify b != .token) = !isTchar b) (by decide) byte

private theorem classify_marks (byte : UInt8) :
    (ChunkRulePipeline.classify byte = .semicolon ↔ byte = 0x3b) ∧
    (ChunkRulePipeline.classify byte = .equals ↔ byte = 0x3d) ∧
    (ChunkRulePipeline.classify byte = .quote ↔ byte = 0x22) ∧
    (ChunkRulePipeline.classify byte = .escape ↔ byte = 0x5c) :=
  forall_byte (p := fun b => (ChunkRulePipeline.classify b = .semicolon ↔ b = 0x3b) ∧
    (ChunkRulePipeline.classify b = .equals ↔ b = 0x3d) ∧ (ChunkRulePipeline.classify b = .quote ↔ b = 0x22) ∧
    (ChunkRulePipeline.classify b = .escape ↔ b = 0x5c)) (by decide) byte

private theorem resume_following (after : List UInt8) :
    ChunkRulePipeline.resume after = match following after with
      | none => invalidChunk "invalid_extension_value"
      | some rest => .ok (joined rest) := by
  cases after with
  | nil => rfl
  | cons byte rest =>
    obtain ⟨semicolon,_,_,_⟩ := classify_marks byte
    simp only [ChunkRulePipeline.resume,following,List.head?_cons,Option.map_some]
    by_cases separator : byte = 0x3b
    · rw [semicolon.mpr separator]
      simp [separator,joined]
    · have other : ChunkRulePipeline.classify byte ≠ .semicolon := fun same => separator (semicolon.mp same)
      simp [separator]

private theorem pipeline_closing {raw : List UInt8} (quotable : Quotable raw) (after : List UInt8) (index : Nat) :
    ChunkRulePipeline.closingFrom false index (raw ++ 0x22 :: after) = some (index + raw.length) := by
  induction quotable generalizing index with
  | nil => rfl
  | @plain byte raw notQuote notEscape quotable ih =>
    obtain ⟨_,_,quote,escape⟩ := classify_marks byte
    rw [List.cons_append,ChunkRulePipeline.closingFrom,if_neg (by decide)]
    cases kind : ChunkRulePipeline.classify byte with
    | quote => exact absurd (quote.mp kind) notQuote
    | escape => exact absurd (escape.mp kind) notEscape
    | _ =>
      rw [ih]
      simp only [List.length_cons]
      congr 1
      omega
  | @pair byte raw quotable ih =>
    have escape : ChunkRulePipeline.classify 0x5c = .escape := by decide
    rw [List.cons_append,List.cons_append,ChunkRulePipeline.closingFrom,if_neg (by decide),escape]
    simp only
    rw [ChunkRulePipeline.closingFrom,if_pos rfl,ih]
    simp only [List.length_cons]
    congr 1
    omega

private theorem pipeline_unclosed {bytes : List UInt8} (unclosed : Unclosed bytes) (index : Nat) :
    ChunkRulePipeline.closingFrom false index bytes = none := by
  induction unclosed generalizing index with
  | nil => rfl
  | dangling => rfl
  | @plain byte bytes notQuote notEscape unclosed ih =>
    obtain ⟨_,_,quote,escape⟩ := classify_marks byte
    rw [ChunkRulePipeline.closingFrom,if_neg (by decide)]
    cases kind : ChunkRulePipeline.classify byte with
    | quote => exact absurd (quote.mp kind) notQuote
    | escape => exact absurd (escape.mp kind) notEscape
    | _ => exact ih _
  | @pair byte bytes unclosed ih =>
    have escape : ChunkRulePipeline.classify 0x5c = .escape := by decide
    rw [ChunkRulePipeline.closingFrom,if_neg (by decide),escape]
    simp only
    rw [ChunkRulePipeline.closingFrom,if_pos rfl,ih]

private theorem pipeline_unescape {raw : List UInt8} (quotable : Quotable raw) (output : List UInt8) :
    ChunkRulePipeline.unescapeFrom output raw = quotedText (output ++ unescape raw) := by
  induction quotable generalizing output with
  | nil => simp [ChunkRulePipeline.unescapeFrom,unescape]
  | @plain byte raw notQuote notEscape quotable ih =>
    obtain ⟨_,_,_,escape⟩ := classify_marks byte
    conv_lhs => unfold ChunkRulePipeline.unescapeFrom
    have other : (ChunkRulePipeline.classify byte == .escape) = false := by
      rw [beq_eq_false_iff_ne]
      exact fun same => notEscape (escape.mp same)
    rw [other]
    simp [ih,notEscape]
  | @pair byte raw quotable ih =>
    have escape : (ChunkRulePipeline.classify 0x5c == .escape) = true := by decide
    conv_lhs => unfold ChunkRulePipeline.unescapeFrom
    rw [escape]
    simp [ih]

/-- One extension of the pipeline, parsed and normalised. -/
private def pipelineNext (remaining : List UInt8) : Result (ChunkExtension × List UInt8) := do
  let (raw,rest) ← ChunkRulePipeline.parseNext remaining
  let extension ← ChunkRulePipeline.normalizeExtension raw
  .ok (extension,rest)

def iteratorParts (parts : Extension × Option (List UInt8)) : ChunkExtension × List UInt8 :=
  (parts.1.denote,joined parts.2)

private theorem pipeline_value (name body : List UInt8) (tokens : name.all isTchar) :
    (ChunkRulePipeline.parseValue name body >>= fun parts =>
        ChunkRulePipeline.normalizeExtension parts.1 >>= fun extension => .ok (extension,parts.2)) =
      answered "invalid_extension_value" iteratorParts
        (readBody body >>= fun parts => .ok (⟨name,some parts.1⟩,parts.2)) := by
  have chars := name_chars tokens
  unfold ChunkRulePipeline.parseValue readBody
  by_cases quote : body.head? = some 0x22
  · rw [if_pos (by simpa using quote),if_pos quote,List.drop_one]
    unfold ChunkRulePipeline.parseQuoted
    rcases quote_cases body.tail with unclosed | ⟨raw,after,split,quotable⟩
    · rw [pipeline_unclosed unclosed,readQuoted_unclosed unclosed]
      rfl
    · rw [split,pipeline_closing quotable,readQuoted_closed quotable]
      simp only [Nat.zero_add,drop_hit,take_hit,resume_following]
      unfold readClosed
      cases following after with
      | none => cases Utf8.valid (unescape raw) <;> rfl
      | some rest =>
        simp only [bind_ok,ChunkRulePipeline.normalizeExtension,ChunkRulePipeline.unescapeQuoted,
          pipeline_unescape quotable,List.nil_append,chars,quotedText,Utf8.fromUtf8]
        cases Utf8.valid (unescape raw) <;> rfl
  · rw [if_neg (by simpa using quote),if_neg quote]
    unfold readToken
    simp only [classify_token,position_takeWhile,take_takeWhile,drop_takeWhile,List.length_eq_zero_iff,
      resume_following]
    by_cases empty : body.takeWhile isTchar = []
    · rw [if_pos empty,if_pos empty]
      rfl
    · rw [if_neg empty,if_neg empty]
      cases following (body.dropWhile isTchar) with
      | none => rfl
      | some rest =>
        simp only [bind_ok,ChunkRulePipeline.normalizeExtension,chars]
        rfl

private theorem pipeline_extension (text : List UInt8) :
    pipelineNext (0x3b :: text) = answered "invalid_extension_value" iteratorParts (readExtension text) := by
  have tokens := List.all_takeWhile (p := isTchar) (l := text)
  have chars := name_chars tokens
  unfold pipelineNext ChunkRulePipeline.parseNext readExtension
  simp only [List.drop_one,List.tail_cons,classify_token,position_takeWhile,take_takeWhile,drop_takeWhile]
  by_cases within : withinName (text.takeWhile isTchar).length = true
  · simp only [within]
    have next : text.drop ((text.takeWhile isTchar).length + 1) = (text.dropWhile isTchar).tail := by
      rw [← List.drop_drop,drop_takeWhile,List.drop_one]
    rw [next]
    cases text.dropWhile isTchar with
    | nil =>
      simp [ChunkRulePipeline.normalizeExtension,chars]
      rfl
    | cons byte body =>
      obtain ⟨semicolon,equals,_,_⟩ := classify_marks byte
      simp only [List.head?_cons,Option.map_some,List.tail_cons]
      by_cases separator : byte = 0x3b
      · rw [semicolon.mpr separator]
        simp [separator,ChunkRulePipeline.normalizeExtension,chars]
        rfl
      · by_cases assigned : byte = 0x3d
        · rw [equals.mpr assigned]
          simp only [assigned]
          exact pipeline_value _ body tokens
        · have notSemicolon : ChunkRulePipeline.classify byte ≠ .semicolon := fun same => separator (semicolon.mp same)
          have notEquals : ChunkRulePipeline.classify byte ≠ .equals := fun same => assigned (equals.mp same)
          simp [separator,assigned]
          rfl
  · simp [within]
    rfl

theorem pipeline_list (count fuel index : Nat) (rest : Option (List UInt8)) (enough : count < fuel)
    (room : index + count = chunkExtensions) :
    ChunkRulePipeline.collectFrom fuel index (joined rest) = listed "invalid_extension_value" (readAll count rest) := by
  induction count generalizing fuel index rest with
  | zero =>
    obtain ⟨fuel,rfl⟩ := Nat.exists_eq_add_one.mpr enough
    cases rest with
    | none => rfl
    | some text =>
      rw [ChunkRulePipeline.collectFrom,joined]
      simp only [List.isEmpty_cons]
      rw [if_neg (by decide),if_pos (by omega),show index = chunkExtensions by omega]
      rfl
  | succ count ih =>
    obtain ⟨fuel,rfl⟩ := Nat.exists_eq_add_one.mpr (show 0 < fuel by omega)
    cases rest with
    | none => rfl
    | some text =>
      have step := pipeline_extension text
      have stepped : ChunkRulePipeline.collectFrom (fuel + 1) index (0x3b :: text) =
          (pipelineNext (0x3b :: text) >>= fun parts =>
            ChunkRulePipeline.collectFrom fuel (index + 1) parts.2 >>= fun extensions =>
              .ok (parts.1 :: extensions)) := by
        rw [ChunkRulePipeline.collectFrom]
        simp only [List.isEmpty_cons]
        rw [if_neg (by decide),if_neg (by omega)]
        simp only [pipelineNext,bind_assoc,bind_ok]
      rw [joined,stepped,step,readAll]
      cases readExtension text with
      | error fault => rfl
      | ok parts =>
        obtain ⟨extension,rest⟩ := parts
        simp only [answered,iteratorParts,bind_ok,ih fuel (index + 1) rest (by omega) (by omega),listed_cons]

end Pipeline

section Spans

private theorem or_shifted {low bits : Nat} (small : low < 2 ^ bits) (high : Nat) :
    low ||| (high <<< bits) = high * 2 ^ bits + low := by
  rw [Nat.or_comm,← Nat.shiftLeft_add_eq_or_of_lt small,Nat.shiftLeft_eq]

/-- The fields of a descriptor stand beside each other. -/
private theorem packSpan_eq (nameStart nameEnd valueStart valueEnd : Nat) (hasValue quoted : Bool)
    (first : nameStart < 2048) (second : nameEnd < 2048) (third : valueStart < 2048) (fourth : valueEnd < 2048) :
    ChunkInvariantSpans.packSpan nameStart nameEnd valueStart valueEnd hasValue quoted =
      nameStart + nameEnd * 2 ^ 11 + valueStart * 2 ^ 22 + valueEnd * 2 ^ 33 + hasValue.toNat * 2 ^ 44 +
        quoted.toNat * 2 ^ 45 := by
  have flag := hasValue.toNat_lt
  unfold ChunkInvariantSpans.packSpan
  rw [or_shifted (by omega) nameEnd,or_shifted (by omega) valueStart,or_shifted (by omega) valueEnd,
    or_shifted (by omega) hasValue.toNat,or_shifted (by omega) quoted.toNat]
  omega

private theorem unpackOffset_eq (span ordinal : Nat) :
    ChunkInvariantSpans.unpackOffset span ordinal = span / 2 ^ (11 * ordinal) % 2 ^ 11 := by
  unfold ChunkInvariantSpans.unpackOffset
  rw [show 2047 = 2 ^ 11 - 1 from rfl,Nat.and_two_pow_sub_one_eq_mod,Nat.shiftRight_eq_div_pow]

private theorem flag_eq (span bit : Nat) : span &&& (1 <<< bit) = 0 ↔ span / 2 ^ bit % 2 = 0 := by
  rw [Nat.one_shiftLeft,Nat.and_two_pow,Nat.testBit_eq_decide_div_mod_eq]
  have positive : 0 < 2 ^ bit := Nat.two_pow_pos bit
  rcases Nat.mod_two_eq_zero_or_one (span / 2 ^ bit) with even | odd
  · simp [even]
  · simp [odd]

theorem materialize_packed (line : List UInt8) (nameStart nameEnd valueStart valueEnd : Nat)
    (hasValue quoted : Bool) (first : nameStart < 2048) (second : nameEnd < 2048) (third : valueStart < 2048)
    (fourth : valueEnd < 2048) :
    ChunkInvariantSpans.materializeExtension line
        (ChunkInvariantSpans.packSpan nameStart nameEnd valueStart valueEnd hasValue quoted) =
      ⟨collectChars ((slice line nameStart nameEnd).map toAsciiLowercase),
        if hasValue then
          some (if quoted then ChunkInvariantSpans.projectedBytes (slice line valueStart valueEnd)
            else slice line valueStart valueEnd)
        else none⟩ := by
  unfold ChunkInvariantSpans.materializeExtension
  simp only [unpackOffset_eq,flag_eq,packSpan_eq _ _ _ _ _ _ first second third fourth]
  have start : (nameStart + nameEnd * 2 ^ 11 + valueStart * 2 ^ 22 + valueEnd * 2 ^ 33 + hasValue.toNat * 2 ^ 44 +
      quoted.toNat * 2 ^ 45) / 2 ^ (11 * 0) % 2 ^ 11 = nameStart := by omega
  have stop : (nameStart + nameEnd * 2 ^ 11 + valueStart * 2 ^ 22 + valueEnd * 2 ^ 33 + hasValue.toNat * 2 ^ 44 +
      quoted.toNat * 2 ^ 45) / 2 ^ (11 * 1) % 2 ^ 11 = nameEnd := by omega
  have from_ : (nameStart + nameEnd * 2 ^ 11 + valueStart * 2 ^ 22 + valueEnd * 2 ^ 33 + hasValue.toNat * 2 ^ 44 +
      quoted.toNat * 2 ^ 45) / 2 ^ (11 * 2) % 2 ^ 11 = valueStart := by omega
  have to_ : (nameStart + nameEnd * 2 ^ 11 + valueStart * 2 ^ 22 + valueEnd * 2 ^ 33 + hasValue.toNat * 2 ^ 44 +
      quoted.toNat * 2 ^ 45) / 2 ^ (11 * 3) % 2 ^ 11 = valueEnd := by omega
  have valued : (nameStart + nameEnd * 2 ^ 11 + valueStart * 2 ^ 22 + valueEnd * 2 ^ 33 + hasValue.toNat * 2 ^ 44 +
      quoted.toNat * 2 ^ 45) / 2 ^ 44 % 2 = hasValue.toNat := by
    have flag := hasValue.toNat_lt
    omega
  have flagged : (nameStart + nameEnd * 2 ^ 11 + valueStart * 2 ^ 22 + valueEnd * 2 ^ 33 + hasValue.toNat * 2 ^ 44 +
      quoted.toNat * 2 ^ 45) / 2 ^ 45 % 2 = quoted.toNat := by
    have flag := hasValue.toNat_lt
    have other := quoted.toNat_lt
    omega
  rw [start,stop,from_,to_,valued,flagged]
  cases hasValue <;> cases quoted <;> rfl

private theorem projected_unescape (raw : List UInt8) : ChunkInvariantSpans.projectedBytes raw = unescape raw := by
  fun_induction unescape raw with
  | case1 => rfl
  | case2 => rfl
  | case3 escaped rest ih =>
    unfold ChunkInvariantSpans.projectedBytes
    simp [ih]
  | case4 byte bytes notEscape ih =>
    unfold ChunkInvariantSpans.projectedBytes
    simp [notEscape,ih]

private theorem ranges_lead (byte : UInt8) :
    ChunkInvariantSpans.continuationRanges byte = match Utf8.leadOf byte with
      | .single => some []
      | .pair => some [(0x80,0xbf)]
      | .triple low high => some [(low,high),(0x80,0xbf)]
      | .quadruple low high => some [(low,high),(0x80,0xbf),(0x80,0xbf)]
      | .invalid => none :=
  forall_byte (p := fun b => ChunkInvariantSpans.continuationRanges b = match Utf8.leadOf b with
      | .single => some []
      | .pair => some [(0x80,0xbf)]
      | .triple low high => some [(low,high),(0x80,0xbf)]
      | .quadruple low high => some [(low,high),(0x80,0xbf),(0x80,0xbf)]
      | .invalid => none) (by decide) byte

private theorem consume_cons (low high byte : UInt8) (ranges : List (UInt8 × UInt8)) (bytes : List UInt8) :
    ChunkInvariantSpans.consumeRanges ((low,high) :: ranges) (byte :: bytes) =
      if Utf8.inRange low high byte then ChunkInvariantSpans.consumeRanges ranges bytes else none := rfl

private theorem consume_nil (bytes : List UInt8) : ChunkInvariantSpans.consumeRanges [] bytes = some bytes := rfl

private theorem consume_short (range : UInt8 × UInt8) (ranges : List (UInt8 × UInt8)) :
    ChunkInvariantSpans.consumeRanges (range :: ranges) [] = none := rfl

private theorem validFrom_valid (fuel : Nat) (bytes : List UInt8) (enough : bytes.length ≤ fuel) :
    ChunkInvariantSpans.validFrom fuel bytes = Utf8.valid bytes := by
  induction fuel generalizing bytes with
  | zero =>
    rw [List.length_eq_zero_iff.mp (Nat.le_zero.mp enough)]
    rfl
  | succ fuel ih =>
    cases bytes with
    | nil => rfl
    | cons first bytes =>
      simp only [List.length_cons] at enough
      rw [ChunkInvariantSpans.validFrom,ranges_lead]
      unfold Utf8.valid
      cases Utf8.leadOf first with
      | single => exact ih bytes (by omega)
      | pair =>
        cases bytes with
        | nil => rfl
        | cons second rest =>
          simp only [List.length_cons] at enough
          have later := ih rest (by omega)
          simp only [consume_cons,consume_nil,Utf8.isContinuation]
          cases Utf8.inRange 0x80 0xbf second <;> simp [later]
      | triple low high =>
        rcases bytes with _ | ⟨second,_ | ⟨third,rest⟩⟩
        · rfl
        · simp only [consume_cons,consume_short]
          cases Utf8.inRange low high second <;> rfl
        · simp only [List.length_cons] at enough
          have later := ih rest (by omega)
          simp only [consume_cons,consume_nil,Utf8.isContinuation]
          cases Utf8.inRange low high second <;> cases Utf8.inRange 0x80 0xbf third <;> simp [later]
      | quadruple low high =>
        rcases bytes with _ | ⟨second,_ | ⟨third,_ | ⟨fourth,rest⟩⟩⟩
        · rfl
        · simp only [consume_cons,consume_short]
          cases Utf8.inRange low high second <;> rfl
        · simp only [consume_cons,consume_short]
          cases Utf8.inRange low high second <;> cases Utf8.inRange 0x80 0xbf third <;> rfl
        · simp only [List.length_cons] at enough
          have later := ih rest (by omega)
          simp only [consume_cons,consume_nil,Utf8.isContinuation]
          cases Utf8.inRange low high second <;> cases Utf8.inRange 0x80 0xbf third <;>
            cases Utf8.inRange 0x80 0xbf fourth <;> simp [later]
      | invalid => rfl

private theorem projected_length (raw : List UInt8) : (unescape raw).length ≤ raw.length := by
  fun_induction unescape raw with
  | case1 => simp
  | case2 => simp
  | case3 escaped rest ih =>
    simp only [List.length_cons]
    omega
  | case4 byte bytes notEscape ih =>
    simp only [List.length_cons]
    omega

private theorem spans_utf8 (raw : List UInt8) :
    ChunkInvariantSpans.validUnescapedUtf8 raw = Utf8.valid (unescape raw) := by
  unfold ChunkInvariantSpans.validUnescapedUtf8
  rw [projected_unescape,validFrom_valid _ _ (projected_length raw)]

private theorem junk_following (after : List UInt8) :
    after.head?.any (· != 0x3b) = (following after).isNone := by
  cases after with
  | nil => rfl
  | cons byte rest => by_cases semicolon : byte = 0x3b <;> simp [following,semicolon]

private theorem spans_closed {raw : List UInt8} (quotable : Quotable raw) (line after : List UInt8)
    (valueStart cursor : Nat) :
    ChunkInvariantSpans.quotedFrom line valueStart false cursor (raw ++ 0x22 :: after) =
      if !Utf8.valid (unescape (slice line valueStart (cursor + raw.length))) then
        invalidChunk "invalid_quoted_string"
      else if (following after).isNone then invalidChunk "invalid_extension_value"
      else .ok (cursor + raw.length,cursor + raw.length + 1) := by
  induction quotable generalizing cursor with
  | nil =>
    rw [List.nil_append,ChunkInvariantSpans.quotedFrom]
    simp only [spans_utf8,junk_following]
    rfl
  | @plain byte raw notQuote notEscape quotable ih =>
    rw [List.cons_append,ChunkInvariantSpans.quotedFrom,if_neg (by decide),if_neg (by simpa using notEscape),
      if_neg (by simpa using notQuote),ih,List.length_cons,Nat.add_assoc,Nat.add_comm 1]
  | @pair byte raw quotable ih =>
    rw [List.cons_append,List.cons_append,ChunkInvariantSpans.quotedFrom,if_neg (by decide),if_pos (by decide),
      ChunkInvariantSpans.quotedFrom,if_pos rfl,ih,List.length_cons,List.length_cons,
      show cursor + 1 + 1 + raw.length = cursor + (raw.length + 1 + 1) by omega]

private theorem spans_unclosed {bytes : List UInt8} (unclosed : Unclosed bytes) (line : List UInt8)
    (valueStart cursor : Nat) :
    ChunkInvariantSpans.quotedFrom line valueStart false cursor bytes = invalidChunk "invalid_quoted_string" := by
  induction unclosed generalizing cursor with
  | nil => rfl
  | dangling => rfl
  | @plain byte bytes notQuote notEscape unclosed ih =>
    rw [ChunkInvariantSpans.quotedFrom,if_neg (by decide),if_neg (by simpa using notEscape),
      if_neg (by simpa using notQuote),ih]
  | @pair byte bytes unclosed ih =>
    rw [ChunkInvariantSpans.quotedFrom,if_neg (by decide),if_pos (by decide),ChunkInvariantSpans.quotedFrom,
      if_pos rfl,ih]

/-- A span parser reports the fault of a reading, or a descriptor that reads back as its extension and
the cursor at the rest. -/
private def Spanned (line : List UInt8) (parsed : Result (Nat × Nat))
    (read : Except Fault (Extension × Option (List UInt8))) : Prop :=
  (∀ fault, read = .error fault → parsed = invalidChunk (reason "invalid_quoted_string" fault)) ∧
  ∀ extension rest, read = .ok (extension,rest) → ∃ descriptor next, parsed = .ok (descriptor,next) ∧
    line.drop next = joined rest ∧ ChunkInvariantSpans.materializeExtension line descriptor = extension.denote

private theorem spanned_error {line : List UInt8} (fault : Fault) :
    Spanned line (invalidChunk (reason "invalid_quoted_string" fault)) (.error fault) := by
  refine ⟨?_,by simp⟩
  intro other same
  cases same
  rfl

private theorem slice_drop {line after : List UInt8} {start : Nat} (part : List UInt8)
    (located : line.drop start = part ++ after) : slice line start (start + part.length) = part := by
  have cut := slice_within located 0 part.length (Nat.le_refl _)
  rw [Nat.add_zero,slice_zero,List.take_length] at cut
  exact cut

private theorem spans_value (line name body : List UInt8) (nameStart cursor : Nat) (tokens : name.all isTchar)
    (short : line.length ≤ chunkLineBytes) (named : line.drop nameStart = name ++ 0x3d :: body)
    (placed : cursor = nameStart + name.length + 1) :
    Spanned line (ChunkInvariantSpans.validateValue line cursor nameStart (nameStart + name.length))
      (readBody body >>= fun parts => .ok (⟨name,some parts.1⟩,parts.2)) := by
  have located : line.drop cursor = body := by
    rw [placed,Nat.add_assoc,← List.drop_drop,named,drop_hit]
  have nameSlice := slice_drop name named
  have chars := name_chars tokens
  have total := congrArg List.length named
  rw [show chunkLineBytes = 1024 from rfl] at short
  simp only [List.length_drop,List.length_append,List.length_cons] at total
  unfold ChunkInvariantSpans.validateValue readBody
  rw [located]
  by_cases quote : body.head? = some 0x22
  · obtain ⟨inside,rfl⟩ := List.head?_eq_some_iff.mp quote
    have opened : line.drop (cursor + 1) = inside := by
      rw [← List.drop_drop,located,List.drop_one,List.tail_cons]
    rw [if_neg (by simp),if_pos quote,List.tail_cons,opened]
    simp only [List.length_cons] at total
    rcases quote_cases inside with unclosed | ⟨raw,after,rfl,quotable⟩
    · rw [spans_unclosed unclosed,readQuoted_unclosed unclosed]
      exact spanned_error .quoted
    · have valueSlice := slice_drop raw opened
      simp only [List.length_append,List.length_cons] at total
      rw [spans_closed quotable,readQuoted_closed quotable,valueSlice]
      unfold readClosed
      cases found : following after with
      | none =>
        cases Utf8.valid (unescape raw) with
        | false => exact spanned_error .torn
        | true => exact spanned_error (.stray raw)
      | some rest =>
        cases Utf8.valid (unescape raw) with
        | false => exact spanned_error .quoted
        | true =>
          refine ⟨by simp [bind,Except.bind],?_⟩
          intro extension other same
          cases same
          refine ⟨_,_,rfl,?_,?_⟩
          · rw [Nat.add_assoc,← List.drop_drop,opened,drop_hit,following_eq_some.mp found]
          · rw [materialize_packed _ _ _ _ _ _ _ (by omega) (by omega) (by omega) (by omega),nameSlice,valueSlice,
              chars,projected_unescape]
            rfl
  · rw [if_pos (by simpa using quote),if_neg quote]
    unfold readToken ChunkInvariantSpans.tokenEnd
    have split := List.takeWhile_append_dropWhile (p := isTchar) (l := body)
    have after : line.drop (cursor + (body.takeWhile isTchar).length) = body.dropWhile isTchar := by
      rw [← List.drop_drop,located,drop_takeWhile]
    have valueSlice := slice_drop (body.takeWhile isTchar) (located.trans split.symm)
    have bounded : (body.takeWhile isTchar).length ≤ body.length := (List.takeWhile_sublist _).length_le
    simp only [located,after]
    by_cases empty : body.takeWhile isTchar = []
    · rw [if_pos (by simp [empty]),if_pos empty]
      exact spanned_error .value
    · have moved : ¬ cursor + (body.takeWhile isTchar).length = cursor := by
        have := List.length_pos_of_ne_nil empty
        omega
      rw [if_neg moved,if_neg empty,junk_following]
      cases found : following (body.dropWhile isTchar) with
      | none => exact spanned_error .value
      | some rest =>
        refine ⟨by simp [bind,Except.bind],?_⟩
        intro extension other same
        cases same
        refine ⟨_,_,rfl,?_,?_⟩
        · rw [after,following_eq_some.mp found]
        · rw [materialize_packed _ _ _ _ _ _ _ (by omega) (by omega) (by omega) (by omega),nameSlice,valueSlice,
            chars]
          rfl

/-- The body of one turn of `validate_line_grammar` behind the extension count. -/
private def spansNext (line : List UInt8) (cursor : Nat) : Result (Nat × Nat) :=
  let nameStart := cursor + 1
  let nameEnd := ChunkInvariantSpans.tokenEnd line nameStart
  if !withinName (nameEnd - nameStart) then invalidChunk "invalid_extension_name"
  else match (line.drop nameEnd).head? with
    | none => .ok (ChunkInvariantSpans.packSpan nameStart nameEnd 0 0 false false,nameEnd)
    | some byte =>
      if byte == 0x3b then .ok (ChunkInvariantSpans.packSpan nameStart nameEnd 0 0 false false,nameEnd)
      else if byte == 0x3d then ChunkInvariantSpans.validateValue line (nameEnd + 1) nameStart nameEnd
      else invalidChunk "invalid_extension_name"

private theorem spans_extension (line text : List UInt8) (cursor : Nat) (short : line.length ≤ chunkLineBytes)
    (located : line.drop cursor = 0x3b :: text) : Spanned line (spansNext line cursor) (readExtension text) := by
  have started : line.drop (cursor + 1) = text := by
    rw [← List.drop_drop,located,List.drop_one,List.tail_cons]
  have tokens := List.all_takeWhile (p := isTchar) (l := text)
  have chars := name_chars tokens
  have split := List.takeWhile_append_dropWhile (p := isTchar) (l := text)
  have after : line.drop (cursor + 1 + (text.takeWhile isTchar).length) = text.dropWhile isTchar := by
    rw [← List.drop_drop,started,drop_takeWhile]
  have nameSlice := slice_drop (text.takeWhile isTchar) (started.trans split.symm)
  have total := congrArg List.length located
  have bounded : (text.takeWhile isTchar).length ≤ text.length := (List.takeWhile_sublist _).length_le
  rw [show chunkLineBytes = 1024 from rfl] at short
  simp only [List.length_drop,List.length_cons] at total
  unfold spansNext readExtension ChunkInvariantSpans.tokenEnd
  simp only [started,after,Nat.add_sub_cancel_left]
  by_cases within : withinName (text.takeWhile isTchar).length = true
  · simp only [within]
    have bare (rest : Option (List UInt8)) (remaining : text.dropWhile isTchar = joined rest) :
        Spanned line (.ok (ChunkInvariantSpans.packSpan (cursor + 1)
          (cursor + 1 + (text.takeWhile isTchar).length) 0 0 false false,
          cursor + 1 + (text.takeWhile isTchar).length)) (.ok (⟨text.takeWhile isTchar,none⟩,rest)) := by
      refine ⟨by simp,?_⟩
      intro extension other same
      cases same
      refine ⟨_,_,rfl,by rw [after,remaining],?_⟩
      rw [materialize_packed _ _ _ _ _ _ _ (by omega) (by omega) (by omega) (by omega),nameSlice,chars]
      rfl
    cases behind : text.dropWhile isTchar with
    | nil => exact bare none behind
    | cons byte body =>
      by_cases semicolon : byte = 0x3b
      · subst semicolon
        exact bare (some body) behind
      · by_cases equals : byte = 0x3d
        · subst equals
          rw [behind] at split
          exact spans_value line _ body (cursor + 1) _ tokens short (started.trans split.symm) rfl
        · simp [semicolon,equals]
          exact spanned_error .name
  · simp [within]
    exact spanned_error .name

private theorem spans_step (line : List UInt8) (fuel cursor : Nat) (spans : List Nat)
    (inside : ¬ cursor ≥ line.length) (room : ¬ spans.length + 1 > chunkExtensions) :
    ChunkInvariantSpans.validateFrom line (fuel + 1) cursor spans =
      (spansNext line cursor >>= fun parts =>
        ChunkInvariantSpans.validateFrom line fuel parts.2 (spans ++ [parts.1])) := by
  rw [ChunkInvariantSpans.validateFrom,if_neg inside]
  unfold spansNext
  simp only [room,if_false]
  cases withinName (ChunkInvariantSpans.tokenEnd line (cursor + 1) - (cursor + 1)) with
  | false => rfl
  | true =>
    cases (line.drop (ChunkInvariantSpans.tokenEnd line (cursor + 1))).head? with
    | none => rfl
    | some byte =>
      by_cases semicolon : byte = 0x3b
      · simp [semicolon]
      · by_cases equals : byte = 0x3d <;> simp [semicolon,equals]

theorem spans_list (line : List UInt8) (count fuel cursor : Nat) (spans : List Nat) (rest : Option (List UInt8))
    (short : line.length ≤ chunkLineBytes) (enough : count < fuel) (room : spans.length + count = chunkExtensions)
    (located : line.drop cursor = joined rest) :
    (ChunkInvariantSpans.validateFrom line fuel cursor spans >>= fun spans =>
        .ok (spans.map (ChunkInvariantSpans.materializeExtension line))) =
      (listed "invalid_quoted_string" (readAll count rest) >>= fun later =>
        .ok (spans.map (ChunkInvariantSpans.materializeExtension line) ++ later)) := by
  induction count generalizing fuel cursor spans rest with
  | zero =>
    obtain ⟨fuel,rfl⟩ := Nat.exists_eq_add_one.mpr enough
    cases rest with
    | none =>
      rw [ChunkInvariantSpans.validateFrom,if_pos (List.drop_eq_nil_iff.mp located)]
      simp [readAll,listed]
    | some text =>
      have inside : ¬ cursor ≥ line.length := by
        intro past
        rw [List.drop_eq_nil_of_le past] at located
        cases located
      rw [ChunkInvariantSpans.validateFrom,if_neg inside]
      simp only
      rw [if_pos (by omega),show spans.length = chunkExtensions by omega]
      rfl
  | succ count ih =>
    obtain ⟨fuel,rfl⟩ := Nat.exists_eq_add_one.mpr (show 0 < fuel by omega)
    cases rest with
    | none =>
      rw [ChunkInvariantSpans.validateFrom,if_pos (List.drop_eq_nil_iff.mp located)]
      simp [readAll,listed]
    | some text =>
      have inside : ¬ cursor ≥ line.length := by
        intro past
        rw [List.drop_eq_nil_of_le past] at located
        cases located
      obtain ⟨failing,passing⟩ := spans_extension line text cursor short located
      rw [spans_step line fuel cursor spans inside (by omega),readAll]
      cases read : readExtension text with
      | error fault =>
        rw [failing fault read]
        rfl
      | ok parts =>
        obtain ⟨extension,rest⟩ := parts
        obtain ⟨descriptor,next,ran,behind,value⟩ := passing extension rest read
        have later := ih fuel next (spans ++ [descriptor]) rest (by omega) (by simp; omega) behind
        rw [ran,bind_ok,later,listed_cons]
        simp [value,bind_assoc]

end Spans

section Iterator

private theorem unit_ascii (byte : UInt8) (inner : Inner byte) :
    ChunkSymbolRuleIterator.accepts .quotedUnit byte = isAscii byte := by
  revert inner
  exact forall_byte (p := fun b => isAsciiControl b = false →
    ChunkSymbolRuleIterator.accepts .quotedUnit b = isAscii b) (by decide) byte

private theorem scan_closed (bytes : List UInt8) (index closing : Nat) :
    (bytes.zipIdx index).foldlM ChunkSymbolRuleIterator.quoteStep ⟨false,some closing⟩ =
      (.ok ⟨false,some closing⟩ : Result ChunkSymbolRuleIterator.QuoteScan) := by
  induction bytes generalizing index with
  | nil => rfl
  | cons byte bytes ih =>
    rw [List.zipIdx_cons,List.foldlM_cons]
    exact ih (index + 1)

private theorem scan_quotable {raw : List UInt8} (quotable : Quotable raw) (after : List UInt8) (index : Nat)
    (inner : ∀ b ∈ raw, Inner b) :
    ((raw ++ 0x22 :: after).zipIdx index).foldlM ChunkSymbolRuleIterator.quoteStep ⟨false,none⟩ =
      if isForeign raw then invalidChunk "invalid_quoted_string" else .ok ⟨false,some (index + raw.length)⟩ := by
  induction quotable generalizing index with
  | nil =>
    rw [List.nil_append,List.zipIdx_cons,List.foldlM_cons]
    exact scan_closed after (index + 1) index
  | @plain byte raw notQuote notEscape quotable ih =>
    have unit := unit_ascii byte (inner byte (by simp))
    have later := ih (index + 1) fun b member => inner b (by simp [member])
    rw [List.cons_append,List.zipIdx_cons,List.foldlM_cons]
    have step : ChunkSymbolRuleIterator.quoteStep ⟨false,none⟩ (byte,index) =
        if isAscii byte then .ok ⟨false,none⟩ else invalidChunk "invalid_quoted_string" := by
      simp [ChunkSymbolRuleIterator.quoteStep,notQuote,notEscape,unit]
    rw [step]
    cases small : isAscii byte with
    | false => simp [isForeign,small]
    | true =>
      rw [if_pos rfl,bind_ok,later]
      simp [isForeign,small,Nat.add_assoc,Nat.add_comm 1]
  | @pair byte raw quotable ih =>
    have unit := unit_ascii byte (inner byte (by simp))
    have later := ih (index + 1 + 1) fun b member => inner b (by simp [member])
    rw [List.cons_append,List.cons_append,List.zipIdx_cons,List.foldlM_cons,List.zipIdx_cons]
    have opened : ChunkSymbolRuleIterator.quoteStep ⟨false,none⟩ (0x5c,index) = .ok ⟨true,none⟩ := rfl
    have step : ChunkSymbolRuleIterator.quoteStep ⟨true,none⟩ (byte,index + 1) =
        if isAscii byte then .ok ⟨false,none⟩ else invalidChunk "invalid_quoted_string" := by
      cases small : isAscii byte <;> simp [ChunkSymbolRuleIterator.quoteStep,unit,small]
    rw [opened,bind_ok,List.foldlM_cons,step]
    cases small : isAscii byte with
    | false => simp [isForeign,small]
    | true =>
      have width : index + 1 + 1 + raw.length = index + (0x5c :: byte :: raw).length := by
        simp only [List.length_cons]
        omega
      rw [if_pos rfl,bind_ok,later,width]
      simp [isForeign,small,show isAscii 0x5c = true by decide]

private theorem scan_unclosed {bytes : List UInt8} (unclosed : Unclosed bytes) (index : Nat) :
    (∃ escaped, (bytes.zipIdx index).foldlM ChunkSymbolRuleIterator.quoteStep ⟨false,none⟩ =
        (.ok ⟨escaped,none⟩ : Result ChunkSymbolRuleIterator.QuoteScan)) ∨
      (bytes.zipIdx index).foldlM ChunkSymbolRuleIterator.quoteStep ⟨false,none⟩ =
        invalidChunk "invalid_quoted_string" := by
  induction unclosed generalizing index with
  | nil => exact .inl ⟨false,rfl⟩
  | dangling => exact .inl ⟨true,rfl⟩
  | @plain byte bytes notQuote notEscape unclosed ih =>
    rw [List.zipIdx_cons,List.foldlM_cons]
    by_cases unit : ChunkSymbolRuleIterator.accepts .quotedUnit byte = true
    · have step : ChunkSymbolRuleIterator.quoteStep ⟨false,none⟩ (byte,index) = .ok ⟨false,none⟩ := by
        simp [ChunkSymbolRuleIterator.quoteStep,notQuote,notEscape,unit]
      rw [step]
      exact ih (index + 1)
    · have step : ChunkSymbolRuleIterator.quoteStep ⟨false,none⟩ (byte,index) =
          invalidChunk "invalid_quoted_string" := by
        simp [ChunkSymbolRuleIterator.quoteStep,notQuote,notEscape,unit]
      rw [step]
      exact .inr rfl
  | @pair byte bytes unclosed ih =>
    have opened : ChunkSymbolRuleIterator.quoteStep ⟨false,none⟩ (0x5c,index) = .ok ⟨true,none⟩ := rfl
    rw [List.zipIdx_cons,List.foldlM_cons,opened,bind_ok,List.zipIdx_cons,List.foldlM_cons]
    by_cases unit : ChunkSymbolRuleIterator.accepts .quotedUnit byte = true
    · have step : ChunkSymbolRuleIterator.quoteStep ⟨true,none⟩ (byte,index + 1) = .ok ⟨false,none⟩ := by
        simp [ChunkSymbolRuleIterator.quoteStep,unit]
      rw [step]
      exact ih (index + 1 + 1)
    · have step : ChunkSymbolRuleIterator.quoteStep ⟨true,none⟩ (byte,index + 1) =
          invalidChunk "invalid_quoted_string" := by
        simp [ChunkSymbolRuleIterator.quoteStep,unit]
      rw [step]
      exact .inr rfl

private theorem contents_unclosed {bytes : List UInt8} (unclosed : Unclosed bytes) :
    ChunkSymbolRuleIterator.quotedContents bytes = invalidChunk "invalid_quoted_string" := by
  unfold ChunkSymbolRuleIterator.quotedContents
  rcases scan_unclosed unclosed 0 with ⟨escaped,ran⟩ | failed
  · rw [ran]
    rfl
  · rw [failed]
    rfl

private theorem contents_closed {raw : List UInt8} (quotable : Quotable raw) (after : List UInt8)
    (inner : ∀ b ∈ raw, Inner b) :
    ChunkSymbolRuleIterator.quotedContents (raw ++ 0x22 :: after) =
      if isForeign raw then invalidChunk "invalid_quoted_string" else .ok (raw,raw.length + 1) := by
  unfold ChunkSymbolRuleIterator.quotedContents
  rw [scan_quotable quotable after 0 inner]
  cases isForeign raw with
  | true => rfl
  | false =>
    change Except.ok ((raw ++ 0x22 :: after).take (0 + raw.length),0 + raw.length + 1) = _
    rw [Nat.zero_add,take_hit]
    rfl

private theorem unescaped_quotable {raw : List UInt8} (quotable : Quotable raw) :
    ChunkSymbolRuleIterator.unescapedFrom false raw = unescape raw := by
  induction quotable with
  | nil => rfl
  | plain notQuote notEscape _ ih => simp [ChunkSymbolRuleIterator.unescapedFrom,notEscape,ih]
  | pair _ ih => simp [ChunkSymbolRuleIterator.unescapedFrom,ih]

/-- The iterator's answer: values outside ASCII are refused where they stand. -/
def iterated : Except Fault (Extension × Option (List UInt8)) → Result (ChunkExtension × List UInt8)
  | .error (.stray raw) =>
    if isForeign raw then invalidChunk "invalid_quoted_string" else invalidChunk "invalid_extension_value"
  | .error fault => invalidChunk (reason "invalid_quoted_string" fault)
  | .ok (extension,rest) =>
    if extension.isForeign then invalidChunk "invalid_quoted_string" else .ok (extension.denote,joined rest)

private def iteratorNext (remaining : List UInt8) : Result (ChunkExtension × List UInt8) := do
  let (extension,rest) ← ChunkSymbolRuleIterator.nextExtension remaining
  .ok (ChunkSymbolRuleIterator.normalize extension,rest)

/-- What `next` does behind the name. -/
private def iteratorBehind (name suffix : List UInt8) : Result (ChunkExtension × List UInt8) := do
  let (value,consumed) ← ChunkSymbolRuleIterator.readValue suffix
  let rest := suffix.drop consumed
  if !rest.isEmpty && rest.head? != some 0x3b then invalidChunk "invalid_extension_value"
  else .ok (ChunkSymbolRuleIterator.normalize ⟨name,value⟩,rest)

private theorem rest_following (after : List UInt8) :
    (!after.isEmpty && after.head? != some 0x3b) = (following after).isNone := by
  cases after with
  | nil => rfl
  | cons byte rest => by_cases semicolon : byte = 0x3b <;> simp [following,semicolon]

private theorem iterator_value (name body : List UInt8) (tokens : name.all isTchar) (inner : ∀ b ∈ body, Inner b) :
    iteratorBehind name (0x3d :: body) =
      iterated (readBody body >>= fun parts => .ok (⟨name,some parts.1⟩,parts.2)) := by
  have chars := name_chars tokens
  unfold iteratorBehind ChunkSymbolRuleIterator.readValue readBody
  simp only [show ((0x3d : UInt8) == 0x3b) = false by decide,beq_self_eq_true,if_true,Bool.false_eq_true,if_false]
  by_cases quote : body.head? = some 0x22
  · obtain ⟨inside,rfl⟩ := List.head?_eq_some_iff.mp quote
    rw [if_pos (by simp),if_pos quote,List.drop_one,List.tail_cons]
    rcases quote_cases inside with unclosed | ⟨raw,after,rfl,quotable⟩
    · rw [contents_unclosed unclosed,readQuoted_unclosed unclosed]
      rfl
    · rw [contents_closed quotable after fun b member => inner b (by simp [member]),readQuoted_closed quotable]
      unfold readClosed
      cases foreign : isForeign raw with
      | true =>
        cases following after with
        | none =>
          cases Utf8.valid (unescape raw) with
          | false => rfl
          | true => simp [bind,Except.bind,iterated,foreign,invalidChunk]
        | some rest =>
          cases Utf8.valid (unescape raw) with
          | false => rfl
          | true => simp [bind,Except.bind,iterated,Extension.isForeign,Value.isForeign,foreign,invalidChunk]
      | false =>
        have small : ∀ b ∈ raw, isAscii b := by simpa [isForeign] using foreign
        have plain : ∀ b ∈ unescape raw, isAscii b := fun b member => small b (unescape_subset member)
        have behind : (0x3d :: 0x22 :: (raw ++ 0x22 :: after)).drop (raw.length + 1 + 2) = after := by
          simp only [List.drop_succ_cons]
          exact drop_hit raw 0x22 after
        simp only [Bool.false_eq_true,if_false,bind_ok,behind,rest_following,Utf8.valid_of_ascii plain,if_true]
        cases found : following after with
        | none => simp [bind,Except.bind,iterated,foreign]
        | some rest =>
          rw [following_eq_some.mp found]
          simp [bind,Except.bind,iterated,Extension.isForeign,Value.isForeign,foreign,
            ChunkSymbolRuleIterator.normalize,unescaped_quotable quotable,collectChars_ascii plain,chars,
            Extension.denote,Value.denote]
  · rw [if_neg (by simpa using quote),if_neg quote]
    have kinds : body.takeWhile (ChunkSymbolRuleIterator.accepts .token) = body.takeWhile isTchar := rfl
    unfold readToken
    simp only [kinds,List.length_eq_zero_iff,take_takeWhile]
    by_cases empty : body.takeWhile isTchar = []
    · rw [if_pos empty,if_pos empty]
      rfl
    · have behind : (0x3d :: body).drop ((body.takeWhile isTchar).length + 1) = body.dropWhile isTchar := by
        rw [List.drop_succ_cons,drop_takeWhile]
      have small : ∀ b ∈ body.takeWhile isTchar, isAscii b := fun b member =>
        tchar_ascii b (List.all_eq_true.mp List.all_takeWhile b member)
      rw [if_neg empty,if_neg empty]
      simp only [bind_ok,behind,rest_following]
      cases found : following (body.dropWhile isTchar) with
      | none => rfl
      | some rest =>
        rw [following_eq_some.mp found]
        simp [bind,Except.bind,iterated,Extension.isForeign,Value.isForeign,ChunkSymbolRuleIterator.normalize,
          collectChars_ascii small,chars,Extension.denote,Value.denote]

private theorem iterator_extension (text : List UInt8) (inner : ∀ b ∈ text, Inner b) :
    iteratorNext (0x3b :: text) = iterated (readExtension text) := by
  have tokens := List.all_takeWhile (p := isTchar) (l := text)
  have chars := name_chars tokens
  have kinds : text.takeWhile (ChunkSymbolRuleIterator.accepts .token) = text.takeWhile isTchar := rfl
  have stepped : iteratorNext (0x3b :: text) =
      if !withinName (text.takeWhile isTchar).length then invalidChunk "invalid_extension_name"
      else iteratorBehind (text.takeWhile isTchar) (text.dropWhile isTchar) := by
    unfold iteratorNext ChunkSymbolRuleIterator.nextExtension iteratorBehind
    simp only [List.head?_cons,List.drop_one,List.tail_cons,kinds,take_takeWhile,drop_takeWhile]
    cases withinName (text.takeWhile isTchar).length with
    | false => rfl
    | true =>
      cases ChunkSymbolRuleIterator.readValue (text.dropWhile isTchar) with
      | error error => rfl
      | ok parts =>
        simp
        split <;> rfl
  rw [stepped,readExtension]
  simp only
  by_cases within : withinName (text.takeWhile isTchar).length = true
  · simp only [within]
    cases behind : text.dropWhile isTchar with
    | nil =>
      simp [iteratorBehind,ChunkSymbolRuleIterator.readValue,ChunkSymbolRuleIterator.normalize,chars]
      rfl
    | cons byte body =>
      have inside : ∀ b ∈ byte :: body, Inner b := by
        rw [← behind]
        exact fun b member => inner b ((List.dropWhile_sublist _).mem member)
      by_cases semicolon : byte = 0x3b
      · subst semicolon
        simp [iteratorBehind,ChunkSymbolRuleIterator.readValue,ChunkSymbolRuleIterator.normalize,chars]
        rfl
      · by_cases equals : byte = 0x3d
        · subst equals
          exact iterator_value _ body tokens fun b member => inside b (by simp [member])
        · simp [iteratorBehind,ChunkSymbolRuleIterator.readValue,semicolon,equals]
          rfl
  · simp [within]
    rfl

/-- The iterator's result for an extension list from its reading. -/
def iteratedList : List Extension × Ending → Result (List ChunkExtension)
  | (extensions,ending) =>
    if extensions.any Extension.isForeign then invalidChunk "invalid_quoted_string"
    else match ending with
      | .faulty (.stray raw) =>
        if isForeign raw then invalidChunk "invalid_quoted_string" else invalidChunk "invalid_extension_value"
      | ending => listed "invalid_quoted_string" (extensions,ending)

private theorem iteratedList_cons (extension : Extension) (later : List Extension × Ending) :
    iteratedList (extension :: later.1,later.2) =
      if extension.isForeign then invalidChunk "invalid_quoted_string"
      else iteratedList later >>= fun extensions => .ok (extension.denote :: extensions) := by
  obtain ⟨extensions,ending⟩ := later
  cases first : extension.isForeign with
  | true => simp [iteratedList,first]
  | false =>
    cases others : extensions.any Extension.isForeign with
    | true => simp [iteratedList,first,others]
    | false =>
      cases ending with
      | done => simp [iteratedList,first,others,listed]
      | overflow => simp [iteratedList,first,others,listed]
      | faulty fault =>
        cases fault with
        | stray raw => cases foreign : isForeign raw <;> simp [iteratedList,first,others,foreign]
        | _ => simp [iteratedList,first,others,listed]

theorem iterator_list (count fuel index : Nat) (rest : Option (List UInt8)) (enough : count < fuel)
    (room : index + count = chunkExtensions) (inner : ∀ b ∈ joined rest, Inner b) :
    ChunkSymbolRuleIterator.collectFrom fuel index (joined rest) = iteratedList (readAll count rest) := by
  induction count generalizing fuel index rest with
  | zero =>
    obtain ⟨fuel,rfl⟩ := Nat.exists_eq_add_one.mpr enough
    cases rest with
    | none => rfl
    | some text =>
      rw [ChunkSymbolRuleIterator.collectFrom,joined]
      simp only [List.isEmpty_cons]
      rw [if_neg (by decide),if_pos (by omega),show index = chunkExtensions by omega]
      rfl
  | succ count ih =>
    obtain ⟨fuel,rfl⟩ := Nat.exists_eq_add_one.mpr (show 0 < fuel by omega)
    cases rest with
    | none => rfl
    | some text =>
      have textInner : ∀ b ∈ text, Inner b := fun b member => inner b (by simp [joined,member])
      have stepped : ChunkSymbolRuleIterator.collectFrom (fuel + 1) index (0x3b :: text) =
          (iteratorNext (0x3b :: text) >>= fun parts =>
            ChunkSymbolRuleIterator.collectFrom fuel (index + 1) parts.2 >>= fun extensions =>
              .ok (parts.1 :: extensions)) := by
        rw [ChunkSymbolRuleIterator.collectFrom]
        simp only [List.isEmpty_cons]
        rw [if_neg (by decide),if_neg (by omega)]
        simp only [iteratorNext,bind_assoc,bind_ok]
      rw [joined,stepped,iterator_extension text textInner,readAll]
      cases read : readExtension text with
      | error fault =>
        cases fault with
        | stray raw => cases foreign : isForeign raw <;> simp [iterated,iteratedList,foreign]
        | _ => simp [iterated,iteratedList,listed]
      | ok parts =>
        obtain ⟨extension,rest⟩ := parts
        obtain ⟨_,split⟩ := (readExtension_ok_iff text extension rest).mp read
        have restInner : ∀ b ∈ joined rest, Inner b := fun b member => textInner b (by simp [split,member])
        have later := ih fuel (index + 1) rest (by omega) (by omega) restInner
        rw [iteratedList_cons]
        cases foreign : extension.isForeign with
        | true => simp [iterated,foreign]
        | false => simp [iterated,foreign,later]

end Iterator

end Polyguard.ChunkRefinement
