import Polyguard.Model
import Polyguard.Bytes.Utf8

/-! The five registered implementations of `parse_chunk_metadata`.
All of them list the same token bytes, `isTchar`. A token checked to be ASCII is
its own text. The extension loops admit sixteen extensions and look once more,
which is the fuel of their recursion. -/
namespace Polyguard
open Ascii Slices

def chunkLineBytes : Nat := 1024
def chunkSizeLimit : Nat := 16777216
def chunkExtensions : Nat := 16
def extensionNameBytes : Nat := 64

def invalidChunk {α : Type} (reason : String) : Result α := .error (.invalidChunk reason)

def lineLimit {α : Type} (actual : Nat) : Result α :=
  .error (.limitExceeded "chunk_line_bytes" chunkLineBytes actual)

def sizeLimit {α : Type} (actual : Nat) : Result α := .error (.limitExceeded "chunk_size" chunkSizeLimit actual)

def extensionLimit {α : Type} (actual : Nat) : Result α :=
  .error (.limitExceeded "chunk_extensions" chunkExtensions actual)

@[simp,grind =] theorem invalidChunk_bind {α β : Type} (reason : String) (next : α → Result β) :
    (invalidChunk reason >>= next) = invalidChunk reason := rfl

@[simp,grind =] theorem lineLimit_bind {α β : Type} (actual : Nat) (next : α → Result β) :
    (lineLimit actual >>= next) = lineLimit actual := rfl

@[simp,grind =] theorem sizeLimit_bind {α β : Type} (actual : Nat) (next : α → Result β) :
    (sizeLimit actual >>= next) = sizeLimit actual := rfl

@[simp,grind =] theorem extensionLimit_bind {α β : Type} (actual : Nat) (next : α → Result β) :
    (extensionLimit actual >>= next) = extensionLimit actual := rfl

def hexValue (byte : UInt8) : Option Nat :=
  if 0x30 ≤ byte && byte ≤ 0x39 then some (byte - 0x30).toNat
  else if 0x61 ≤ byte && byte ≤ 0x66 then some (byte - 0x61 + 10).toNat
  else if 0x41 ≤ byte && byte ≤ 0x46 then some (byte - 0x41 + 10).toNat
  else none

/-- The digit of a byte already known to be hexadecimal. -/
def hexDigit (byte : UInt8) : Nat := (hexValue byte).getD 0

def withinName (length : Nat) : Bool := 1 ≤ length && length ≤ extensionNameBytes

/-- The text of the bytes, or a quoted-string error. -/
def quotedText (bytes : List UInt8) : Result (List UInt8) :=
  match Utf8.fromUtf8 bytes with
  | some text => .ok text
  | none => invalidChunk "invalid_quoted_string"

namespace ChunkRulePipeline

inductive Boundary where
  | complete (stop : Nat)
  | invalid
  | overLimit

inductive Symbol where
  | token
  | equals
  | semicolon
  | quote
  | escape
  | other
deriving DecidableEq

inductive RawValue where
  | token (bytes : List UInt8)
  | quoted (bytes : List UInt8)

structure RawExtension where
  name : List UInt8
  value : Option RawValue

/-- The scan of `frame_line`; it stops at the offset of the limit, so the source's `take` never cuts it. -/
def boundaryFrom (index : Nat) : List UInt8 → Option Boundary
  | [] => none
  | byte :: bytes =>
    if index = chunkLineBytes then
      if byte == 0x0d && bytes.head? == some 0x0a then some (.complete index)
      else if byte == 0x0d || byte == 0x0a || byte ≤ 31 || byte == 127 then some .invalid
      else some .overLimit
    else if byte == 0x0d && bytes.head? == some 0x0a then some (.complete index)
    else if byte == 0x0d || byte == 0x0a || byte ≤ 31 || byte == 127 then some .invalid
    else boundaryFrom (index + 1) bytes

def frameLine (input : List UInt8) : Result (List UInt8 × Nat) :=
  match boundaryFrom 0 input with
  | some (.complete stop) => .ok (input.take stop,stop + 2)
  | some .invalid => invalidChunk "invalid_line_ending_or_control"
  | some .overLimit => lineLimit (chunkLineBytes + 1)
  | none => .error .incomplete

def classify (byte : UInt8) : Symbol :=
  if byte == 0x3d then .equals
  else if byte == 0x3b then .semicolon
  else if byte == 0x22 then .quote
  else if byte == 0x5c then .escape
  else if isTchar byte then .token
  else .other

def sizeStep (value : Nat) (byte : UInt8) : Option Nat :=
  (checkedMul value 16).bind (checkedAdd · (hexDigit byte))

def parseSize (bytes : List UInt8) : Result Nat :=
  if !(1 ≤ bytes.length && bytes.length ≤ 16) || !bytes.all isAsciiHexdigit then invalidChunk "invalid_size"
  else match bytes.foldlM sizeStep 0 with
    | none => invalidChunk "invalid_size"
    | some value => if value > chunkSizeLimit then sizeLimit value else .ok value

/-- What `parse_value` and `parse_quoted` leave in `remaining` when the value ends before `after`. -/
def resume (after : List UInt8) : Result (List UInt8) :=
  match after.head?.map classify with
  | none => .ok []
  | some .semicolon => .ok after
  | some _ => invalidChunk "invalid_extension_value"

/-- The search for the closing quote; the list is `bytes[index..]`. -/
def closingFrom (escaped : Bool) (index : Nat) : List UInt8 → Option Nat
  | [] => none
  | byte :: bytes =>
    if escaped then closingFrom false (index + 1) bytes
    else match classify byte with
      | .escape => closingFrom true (index + 1) bytes
      | .quote => some index
      | _ => closingFrom false (index + 1) bytes

def parseQuoted (name bytes : List UInt8) : Result (RawExtension × List UInt8) :=
  match closingFrom false 0 bytes with
  | none => invalidChunk "invalid_quoted_string"
  | some closing => do
    let remaining ← resume (bytes.drop (closing + 1))
    .ok (⟨name,some (.quoted (bytes.take closing))⟩,remaining)

def parseValue (name bytes : List UInt8) : Result (RawExtension × List UInt8) :=
  if bytes.head? == some 0x22 then parseQuoted name (bytes.drop 1)
  else
    let valueEnd := (position (fun byte => classify byte != .token) bytes).getD bytes.length
    if valueEnd = 0 then invalidChunk "invalid_extension_value"
    else do
      let remaining ← resume (bytes.drop valueEnd)
      .ok (⟨name,some (.token (bytes.take valueEnd))⟩,remaining)

/-- The next extension and the new `remaining`, which starts with a semicolon or is empty. -/
def parseNext (remaining : List UInt8) : Result (RawExtension × List UInt8) :=
  let body := remaining.drop 1
  let nameEnd := (position (fun byte => classify byte != .token) body).getD body.length
  let name := body.take nameEnd
  if !withinName name.length then invalidChunk "invalid_extension_name"
  else match (body.drop nameEnd).head?.map classify with
    | none => .ok (⟨name,none⟩,[])
    | some .semicolon => .ok (⟨name,none⟩,body.drop nameEnd)
    | some .equals => parseValue name (body.drop (nameEnd + 1))
    | some _ => invalidChunk "invalid_extension_name"

def unescapeFrom (output : List UInt8) : List UInt8 → Result (List UInt8)
  | [] => quotedText output
  | byte :: bytes =>
    if classify byte == .escape then
      match bytes with
      | [] => invalidChunk "invalid_quoted_string"
      | escaped :: rest => unescapeFrom (output ++ [escaped]) rest
    else unescapeFrom (output ++ [byte]) bytes

def unescapeQuoted (bytes : List UInt8) : Result (List UInt8) := unescapeFrom [] bytes

def normalizeExtension (raw : RawExtension) : Result ChunkExtension := do
  let name := collectChars (raw.name.map toAsciiLowercase)
  match raw.value with
  | none => .ok ⟨name,none⟩
  | some (.token bytes) => .ok ⟨name,some bytes⟩
  | some (.quoted bytes) => do
    let value ← unescapeQuoted bytes
    .ok ⟨name,some value⟩

/-- The pipeline collected from the given index on. -/
def collectFrom : Nat → Nat → List UInt8 → Result (List ChunkExtension)
  | 0,index,_ => extensionLimit (index + 1)
  | fuel + 1,index,remaining =>
    if remaining.isEmpty then .ok []
    else if index = chunkExtensions then extensionLimit (index + 1)
    else do
      let (raw,rest) ← parseNext remaining
      let extension ← normalizeExtension raw
      let extensions ← collectFrom fuel (index + 1) rest
      .ok (extension :: extensions)

def parseChunkMetadata (input : List UInt8) : Result ChunkMeta := do
  let (content,bytesConsumed) ← frameLine input
  let split := (position (fun byte => classify byte == .semicolon) content).getD content.length
  let size ← parseSize (content.take split)
  let extensions ← collectFrom (chunkExtensions + 1) 0 (content.drop split)
  .ok ⟨size,extensions,bytesConsumed⟩

end ChunkRulePipeline

namespace ChunkGuardedParts

/-- The scan of `validated_line`; the list is `input[offset..]`. -/
def validatedFrom (input : List UInt8) (offset : Nat) : List UInt8 → Result (List UInt8 × Nat)
  | [] => .error .incomplete
  | byte :: bytes =>
    if offset > chunkLineBytes then lineLimit (offset + 1)
    else if byte == 0x0d && bytes.head? == some 0x0a then .ok (input.take offset,offset + 2)
    else if byte == 0x0d || byte == 0x0a || isAsciiControl byte then
      invalidChunk "invalid_line_ending_or_control"
    else if offset = chunkLineBytes then lineLimit (offset + 1)
    else validatedFrom input (offset + 1) bytes

def validatedLine (input : List UInt8) : Result (List UInt8 × Nat) := validatedFrom input 0 input

def separateSize (line : List UInt8) : List UInt8 × Option (List UInt8) :=
  match position (· == 0x3b) line with
  | some delimiter => (line.take delimiter,some (line.drop (delimiter + 1)))
  | none => (line,none)

def checkedSize (text : List UInt8) : Result Nat :=
  if text.isEmpty || text.length > 16 || !text.all isAsciiHexdigit then invalidChunk "invalid_size"
  else
    let size := text.foldl (fun value byte => value * 16 + hexDigit byte) 0
    if size > chunkSizeLimit then sizeLimit size else .ok size

/-- What follows a complete value. -/
def remainder (after : List UInt8) : Result (Option (List UInt8)) :=
  match after with
  | [] => .ok none
  | byte :: rest => if byte == 0x3b then .ok (some rest) else invalidChunk "invalid_extension_value"

/-- The loop of `parse_quoted_value`; the list is `text[offset..]`. -/
def quotedFrom (unescaped : List UInt8) : List UInt8 → Result (List UInt8 × Option (List UInt8))
  | [] => invalidChunk "invalid_quoted_string"
  | byte :: bytes =>
    if byte == 0x5c then
      match bytes with
      | [] => invalidChunk "invalid_quoted_string"
      | escaped :: rest => quotedFrom (unescaped ++ [escaped]) rest
    else if byte == 0x22 then do
      let value ← quotedText unescaped
      let rest ← remainder bytes
      .ok (value,rest)
    else quotedFrom (unescaped ++ [byte]) bytes

def parseValue (text : List UInt8) : Result (List UInt8 × Option (List UInt8)) :=
  if text.head? == some 0x22 then quotedFrom [] (text.drop 1)
  else
    let valueEnd := (position (fun byte => !isTchar byte) text).getD text.length
    if valueEnd = 0 then invalidChunk "invalid_extension_value"
    else do
      let rest ← remainder (text.drop valueEnd)
      .ok (text.take valueEnd,rest)

def parseExtension (text : List UInt8) : Result (ChunkExtension × Option (List UInt8)) :=
  let nameEnd := (position (fun byte => !isTchar byte) text).getD text.length
  if nameEnd = 0 || nameEnd > extensionNameBytes then invalidChunk "invalid_extension_name"
  else
    let name := collectChars ((text.take nameEnd).map toAsciiLowercase)
    match text.drop nameEnd with
    | [] => .ok (⟨name,none⟩,none)
    | byte :: rest =>
      if byte == 0x3b then .ok (⟨name,none⟩,some rest)
      else if byte == 0x3d then do
        let (value,rest) ← parseValue rest
        .ok (⟨name,some value⟩,rest)
      else invalidChunk "invalid_extension_name"

def parseFrom : Nat → List ChunkExtension → List UInt8 → Result (List ChunkExtension)
  | 0,_,_ => extensionLimit (chunkExtensions + 1)
  | fuel + 1,extensions,text =>
    if extensions.length = chunkExtensions then extensionLimit (chunkExtensions + 1)
    else do
      let (extension,rest) ← parseExtension text
      match rest with
      | some next => parseFrom fuel (extensions ++ [extension]) next
      | none => .ok (extensions ++ [extension])

def parseExtensions (text : List UInt8) : Result (List ChunkExtension) := parseFrom (chunkExtensions + 1) [] text

def parseChunkMetadata (input : List UInt8) : Result ChunkMeta := do
  let (line,bytesConsumed) ← validatedLine input
  let (sizeText,extensionText) := separateSize line
  let size ← checkedSize sizeText
  let extensions ← match extensionText with
    | some text => parseExtensions text
    | none => .ok []
  .ok ⟨size,extensions,bytesConsumed⟩

end ChunkGuardedParts

namespace ChunkInvariantSpans

/-- The scan of `isolate_line`; the list is `input[offset..]`. -/
def isolateFrom (input : List UInt8) (offset : Nat) : List UInt8 → Result (List UInt8 × Nat)
  | [] => .error .incomplete
  | byte :: bytes =>
    if byte == 0x0d && bytes.head? == some 0x0a then
      if offset ≤ chunkLineBytes then .ok (input.take offset,offset + 2) else lineLimit (offset + 1)
    else if isAsciiControl byte then invalidChunk "invalid_line_ending_or_control"
    else if offset = chunkLineBytes then lineLimit (chunkLineBytes + 1)
    else isolateFrom input (offset + 1) bytes

def isolateLine (input : List UInt8) : Result (List UInt8 × Nat) := isolateFrom input 0 input

def sizeFrom (size : Nat) : List UInt8 → Result Nat
  | [] => .ok size
  | byte :: bytes =>
    match hexValue byte with
    | none => invalidChunk "invalid_size"
    | some digit => sizeFrom ((size <<< 4) ||| digit) bytes

def validateSize (text : List UInt8) : Result Nat :=
  if !(1 ≤ text.length && text.length ≤ 16) then invalidChunk "invalid_size"
  else do
    let size ← sizeFrom 0 text
    if size > chunkSizeLimit then sizeLimit size else .ok size

/-- A descriptor of four offsets of eleven bits and two flags. A line has at most 1024 bytes, so no
offset reaches the bits of the next. -/
def packSpan (nameStart nameEnd valueStart valueEnd : Nat) (hasValue quoted : Bool) : Nat :=
  nameStart ||| (nameEnd <<< 11) ||| (valueStart <<< 22) ||| (valueEnd <<< 33) ||| (hasValue.toNat <<< 44) |||
    (quoted.toNat <<< 45)

def unpackOffset (span ordinal : Nat) : Nat := (span >>> (11 * ordinal)) &&& 2047

/-- The bytes of `ProjectedBytes`, in which each quoted-pair slash is deleted. -/
def projectedBytes : List UInt8 → List UInt8
  | [] => []
  | byte :: bytes =>
    if byte == 0x5c then
      match bytes with
      | [] => []
      | escaped :: rest => escaped :: projectedBytes rest
    else byte :: projectedBytes bytes

/-- The ranges of the continuation bytes after a lead byte. -/
def continuationRanges (first : UInt8) : Option (List (UInt8 × UInt8)) :=
  if first ≤ 0x7f then some []
  else if 0xc2 ≤ first && first ≤ 0xdf then some [(0x80,0xbf)]
  else if first == 0xe0 then some [(0xa0,0xbf),(0x80,0xbf)]
  else if (0xe1 ≤ first && first ≤ 0xec) || (0xee ≤ first && first ≤ 0xef) then some [(0x80,0xbf),(0x80,0xbf)]
  else if first == 0xed then some [(0x80,0x9f),(0x80,0xbf)]
  else if first == 0xf0 then some [(0x90,0xbf),(0x80,0xbf),(0x80,0xbf)]
  else if 0xf1 ≤ first && first ≤ 0xf3 then some [(0x80,0xbf),(0x80,0xbf),(0x80,0xbf)]
  else if first == 0xf4 then some [(0x80,0x8f),(0x80,0xbf),(0x80,0xbf)]
  else none

def consumeRanges : List (UInt8 × UInt8) → List UInt8 → Option (List UInt8)
  | [],bytes => some bytes
  | _ :: _,[] => none
  | (low,high) :: ranges,byte :: bytes => if low ≤ byte && byte ≤ high then consumeRanges ranges bytes else none

/-- The loop of `valid_unescaped_utf8` over the projected bytes, one lead byte a turn. -/
def validFrom : Nat → List UInt8 → Bool
  | _,[] => true
  | 0,_ :: _ => false
  | fuel + 1,first :: bytes =>
    match continuationRanges first with
    | none => false
    | some ranges =>
      match consumeRanges ranges bytes with
      | none => false
      | some rest => validFrom fuel rest

def validUnescapedUtf8 (raw : List UInt8) : Bool := validFrom raw.length (projectedBytes raw)

/-- The offset where the tokens from `cursor` on end. -/
def tokenEnd (line : List UInt8) (cursor : Nat) : Nat := cursor + ((line.drop cursor).takeWhile isTchar).length

/-- The loop of `validate_value` inside quotes: the end of the value and the cursor behind it. -/
def quotedFrom (line : List UInt8) (valueStart : Nat) (escaped : Bool) (cursor : Nat) :
    List UInt8 → Result (Nat × Nat)
  | [] => invalidChunk "invalid_quoted_string"
  | byte :: bytes =>
    if escaped then quotedFrom line valueStart false (cursor + 1) bytes
    else if byte == 0x5c then quotedFrom line valueStart true (cursor + 1) bytes
    else if byte == 0x22 then
      if !validUnescapedUtf8 (slice line valueStart cursor) then invalidChunk "invalid_quoted_string"
      else if bytes.head?.any (· != 0x3b) then invalidChunk "invalid_extension_value"
      else .ok (cursor,cursor + 1)
    else quotedFrom line valueStart false (cursor + 1) bytes

def validateValue (line : List UInt8) (cursor nameStart nameEnd : Nat) : Result (Nat × Nat) :=
  if (line.drop cursor).head? != some 0x22 then
    let stop := tokenEnd line cursor
    if stop = cursor then invalidChunk "invalid_extension_value"
    else if (line.drop stop).head?.any (· != 0x3b) then invalidChunk "invalid_extension_value"
    else .ok (packSpan nameStart nameEnd cursor stop true false,stop)
  else do
    let (valueEnd,next) ← quotedFrom line (cursor + 1) false (cursor + 1) (line.drop (cursor + 1))
    .ok (packSpan nameStart nameEnd (cursor + 1) valueEnd true true,next)

def validateFrom (line : List UInt8) : Nat → Nat → List Nat → Result (List Nat)
  | 0,_,spans => extensionLimit (spans.length + 1)
  | fuel + 1,cursor,spans =>
    if cursor ≥ line.length then .ok spans
    else
      let ordinal := spans.length + 1
      if ordinal > chunkExtensions then extensionLimit ordinal
      else
        let nameStart := cursor + 1
        let nameEnd := tokenEnd line nameStart
        if !withinName (nameEnd - nameStart) then invalidChunk "invalid_extension_name"
        else match (line.drop nameEnd).head? with
          | none => validateFrom line fuel nameEnd (spans ++ [packSpan nameStart nameEnd 0 0 false false])
          | some byte =>
            if byte == 0x3b then
              validateFrom line fuel nameEnd (spans ++ [packSpan nameStart nameEnd 0 0 false false])
            else if byte == 0x3d then do
              let (descriptor,next) ← validateValue line (nameEnd + 1) nameStart nameEnd
              validateFrom line fuel next (spans ++ [descriptor])
            else invalidChunk "invalid_extension_name"

def validateLineGrammar (line : List UInt8) : Result (Nat × List Nat) := do
  let sizeEnd := (position (· == 0x3b) line).getD line.length
  let size ← validateSize (line.take sizeEnd)
  let spans ← validateFrom line (chunkExtensions + 1) sizeEnd []
  .ok (size,spans)

def materializeExtension (line : List UInt8) (span : Nat) : ChunkExtension :=
  let name := collectChars ((slice line (unpackOffset span 0) (unpackOffset span 1)).map toAsciiLowercase)
  if span &&& (1 <<< 44) = 0 then ⟨name,none⟩
  else
    let raw := slice line (unpackOffset span 2) (unpackOffset span 3)
    if span &&& (1 <<< 45) = 0 then ⟨name,some raw⟩ else ⟨name,some (projectedBytes raw)⟩

def parseChunkMetadata (input : List UInt8) : Result ChunkMeta := do
  let (line,bytesConsumed) ← isolateLine input
  let (size,spans) ← validateLineGrammar line
  .ok ⟨size,spans.map (materializeExtension line),bytesConsumed⟩

end ChunkInvariantSpans

namespace ChunkSymbolRuleIterator

inductive GrammarClass where
  | hexDigit
  | token
  | quotedUnit

def accepts (kind : GrammarClass) (byte : UInt8) : Bool :=
  match kind with
  | .hexDigit => isAsciiHexdigit byte
  | .token => isTchar byte
  | .quotedUnit => 0x20 ≤ byte && byte ≤ 0x7e

inductive LineEvent where
  | complete (length : Nat)
  | invalidControl
  | tooLong (actual : Nat)

/-- The event that `find_map` finds; the list is `input[offset..]`. -/
def eventFrom (offset : Nat) : List UInt8 → Option LineEvent
  | [] => none
  | byte :: bytes =>
    if byte == 0x0d then
      if bytes.head? == some 0x0a then some (.complete offset) else some .invalidControl
    else if byte == 0x0a || isAsciiControl byte then some .invalidControl
    else if offset = chunkLineBytes then some (.tooLong (offset + 1))
    else eventFrom (offset + 1) bytes

def boundedLine (input : List UInt8) : Result (List UInt8) :=
  match eventFrom 0 input with
  | some (.complete length) => .ok (input.take length)
  | some .invalidControl => invalidChunk "invalid_line_ending_or_control"
  | some (.tooLong actual) => lineLimit actual
  | none => .error .incomplete

def sizeStep (value : Nat) (byte : UInt8) : Result Nat :=
  if !accepts .hexDigit byte then invalidChunk "invalid_size" else .ok (value * 16 + hexDigit byte)

def parseSize (bytes : List UInt8) : Result Nat :=
  if !(1 ≤ bytes.length && bytes.length ≤ 16) then invalidChunk "invalid_size"
  else do
    let size ← bytes.foldlM sizeStep 0
    if size > chunkSizeLimit then sizeLimit size else .ok size

inductive ExtensionValue where
  | token (bytes : List UInt8)
  | quoted (bytes : List UInt8)

structure ParsedExtension where
  name : List UInt8
  value : Option ExtensionValue

structure QuoteScan where
  escaped : Bool
  closing : Option Nat

def quoteStep (state : QuoteScan) (observed : UInt8 × Nat) : Result QuoteScan :=
  let (byte,offset) := observed
  if state.closing.isSome then .ok state
  else if state.escaped then
    if !accepts .quotedUnit byte then invalidChunk "invalid_quoted_string"
    else .ok { state with escaped := false }
  else if byte == 0x5c then .ok { state with escaped := true }
  else if byte == 0x22 then .ok { state with closing := some offset }
  else if accepts .quotedUnit byte then .ok state
  else invalidChunk "invalid_quoted_string"

def quotedContents (bytes : List UInt8) : Result (List UInt8 × Nat) := do
  let state ← bytes.zipIdx.foldlM quoteStep ⟨false,none⟩
  match state.closing.filter (fun _ => !state.escaped) with
  | none => invalidChunk "invalid_quoted_string"
  | some closing => .ok (bytes.take closing,closing + 1)

/-- The value that `next` reads from the suffix behind the name, and the bytes it takes. -/
def readValue (suffix : List UInt8) : Result (Option ExtensionValue × Nat) :=
  match suffix with
  | [] => .ok (none,0)
  | byte :: source =>
    if byte == 0x3b then .ok (none,0)
    else if byte == 0x3d then
      if source.head? == some 0x22 then do
        let (contents,used) ← quotedContents (source.drop 1)
        .ok (some (.quoted contents),used + 2)
      else
        let length := (source.takeWhile (accepts .token)).length
        if length = 0 then invalidChunk "invalid_extension_value"
        else .ok (some (.token (source.take length)),length + 1)
    else invalidChunk "invalid_extension_name"

/-- One `next` of the iterator on a nonempty remainder: the item and the new remainder. -/
def nextExtension (remaining : List UInt8) : Result (ParsedExtension × List UInt8) :=
  if remaining.head? != some 0x3b then invalidChunk "invalid_extension_name"
  else
    let afterSeparator := remaining.drop 1
    let nameLength := (afterSeparator.takeWhile (accepts .token)).length
    if !withinName nameLength then invalidChunk "invalid_extension_name"
    else do
      let suffix := afterSeparator.drop nameLength
      let (value,consumed) ← readValue suffix
      let rest := suffix.drop consumed
      if !rest.isEmpty && rest.head? != some 0x3b then invalidChunk "invalid_extension_value"
      else .ok (⟨afterSeparator.take nameLength,value⟩,rest)

/-- The bytes that the `filter_map` of `normalize` keeps. -/
def unescapedFrom (escaped : Bool) : List UInt8 → List UInt8
  | [] => []
  | byte :: bytes =>
    if escaped then byte :: unescapedFrom false bytes
    else if byte == 0x5c then unescapedFrom true bytes
    else byte :: unescapedFrom false bytes

def normalize (extension : ParsedExtension) : ChunkExtension :=
  ⟨collectChars (extension.name.map toAsciiLowercase),extension.value.map fun value =>
    match value with
    | .token bytes => collectChars bytes
    | .quoted bytes => collectChars (unescapedFrom false bytes)⟩

/-- The iterator collected from the given index on. -/
def collectFrom : Nat → Nat → List UInt8 → Result (List ChunkExtension)
  | 0,index,_ => extensionLimit (index + 1)
  | fuel + 1,index,remaining =>
    if remaining.isEmpty then .ok []
    else if index ≥ chunkExtensions then extensionLimit (index + 1)
    else do
      let (extension,rest) ← nextExtension remaining
      let extensions ← collectFrom fuel (index + 1) rest
      .ok (normalize extension :: extensions)

def parseChunkMetadata (input : List UInt8) : Result ChunkMeta := do
  let line ← boundedLine input
  let sizeEnd := (position (· == 0x3b) line).getD line.length
  let size ← parseSize (line.take sizeEnd)
  let extensions ← collectFrom (chunkExtensions + 1) 0 (line.drop sizeEnd)
  .ok ⟨size,extensions,line.length + 2⟩

end ChunkSymbolRuleIterator

namespace ChunkComposableSegments

/-- The scan of `bounded_line`; the list is `input[offset..]`. -/
def boundedFrom (input : List UInt8) (offset : Nat) : List UInt8 → Result (List UInt8 × Nat)
  | [] => .error .incomplete
  | byte :: bytes =>
    if byte == 0x0d && bytes.head? == some 0x0a then .ok (input.take offset,offset + 2)
    else if isAsciiControl byte then invalidChunk "invalid_line_ending_or_control"
    else if offset = chunkLineBytes then lineLimit (chunkLineBytes + 1)
    else boundedFrom input (offset + 1) bytes

def boundedLine (input : List UInt8) : Result (List UInt8 × Nat) := boundedFrom input 0 input

def parseSize (digits : List UInt8) : Result Nat :=
  if !(1 ≤ digits.length && digits.length ≤ 16) || !digits.all isAsciiHexdigit then invalidChunk "invalid_size"
  else
    let size := digits.foldl (fun value byte => value * 16 + hexDigit byte) 0
    if size > chunkSizeLimit then sizeLimit size else .ok size

def validName (name : List UInt8) : Bool := withinName name.length && name.all isTchar

/-- The loop of `map_extension_separators`; the list is `line[offset..]`. -/
def mapFrom (line : List UInt8) (offset segmentStart : Nat) (quoted escaped : Bool) (separators : List Nat) :
    List UInt8 → Result (List Nat)
  | [] => .ok separators
  | byte :: bytes =>
    if quoted then
      if escaped then mapFrom line (offset + 1) segmentStart true false separators bytes
      else if byte == 0x5c then mapFrom line (offset + 1) segmentStart true true separators bytes
      else if byte == 0x22 then mapFrom line (offset + 1) segmentStart false escaped separators bytes
      else mapFrom line (offset + 1) segmentStart true escaped separators bytes
    else if byte == 0x22 && segmentStart < offset && (line.drop (offset - 1)).head? == some 0x3d &&
        validName (slice line segmentStart (offset - 1)) then
      mapFrom line (offset + 1) segmentStart true escaped separators bytes
    else if byte != 0x3b then mapFrom line (offset + 1) segmentStart false escaped separators bytes
    else if separators.length = chunkExtensions then extensionLimit (chunkExtensions + 1)
    else mapFrom line (offset + 1) (offset + 1) false escaped (separators ++ [offset]) bytes

def mapExtensionSeparators (line : List UInt8) (firstSeparator : Option Nat) : Result (List Nat) :=
  match firstSeparator with
  | none => .ok []
  | some first => mapFrom line (first + 1) (first + 1) false false [first] (line.drop (first + 1))

/-- The loop of `unquote`; the list is `value[offset..]`. -/
def unquoteFrom (decoded : List UInt8) : List UInt8 → Result (List UInt8)
  | [] => invalidChunk "invalid_quoted_string"
  | byte :: bytes =>
    if byte == 0x5c then
      match bytes with
      | [] => invalidChunk "invalid_quoted_string"
      | escaped :: rest => unquoteFrom (decoded ++ [escaped]) rest
    else if byte == 0x22 then
      if bytes.isEmpty then quotedText decoded else invalidChunk "invalid_extension_value"
    else unquoteFrom (decoded ++ [byte]) bytes

def transformValue (value : List UInt8) : Result (List UInt8) :=
  if value.head? == some 0x22 then unquoteFrom [] (value.drop 1)
  else if value.isEmpty || !value.all isTchar then invalidChunk "invalid_extension_value"
  else .ok value

def transformExtension (segment : List UInt8) : Result ChunkExtension :=
  let equals := position (· == 0x3d) segment
  let nameBytes := (equals.map segment.take).getD segment
  if !validName nameBytes then invalidChunk "invalid_extension_name"
  else
    let name := collectChars (nameBytes.map toAsciiLowercase)
    match equals with
    | none => .ok ⟨name,none⟩
    | some offset => do
      let value ← transformValue (segment.drop (offset + 1))
      .ok ⟨name,some value⟩

/-- Each segment reaches from behind its separator to the next one or to the end of the line. -/
def transformExtensions (line : List UInt8) : List Nat → Result (List ChunkExtension)
  | [] => .ok []
  | separator :: rest => do
    let extension ← transformExtension (slice line (separator + 1) (rest.head?.getD line.length))
    let extensions ← transformExtensions line rest
    .ok (extension :: extensions)

def parseChunkMetadata (input : List UInt8) : Result ChunkMeta := do
  let (line,bytesConsumed) ← boundedLine input
  let firstSeparator := position (· == 0x3b) line
  let size ← parseSize (line.take (firstSeparator.getD line.length))
  let separators ← mapExtensionSeparators line firstSeparator
  let extensions ← transformExtensions line separators
  .ok ⟨size,extensions,bytesConsumed⟩

end ChunkComposableSegments

/-- The registered implementations, in registry order. -/
def chunkImplementations : List (List UInt8 → Result ChunkMeta) :=
  [ChunkRulePipeline.parseChunkMetadata,ChunkGuardedParts.parseChunkMetadata,
    ChunkInvariantSpans.parseChunkMetadata,ChunkSymbolRuleIterator.parseChunkMetadata,
    ChunkComposableSegments.parseChunkMetadata]

end Polyguard
