import Polyguard.Chunk.Implementations

/-! The grammar of a chunk line, with the faults in the order in which they are met.
`frameFrom` is the line boundary, `chunkSize` the size, `readExtension` one
extension and `readAll` the extension list; `cut` is the list cut at semicolons
outside quoted values, without a look at anything else. -/
namespace Polyguard.ChunkGrammar
open Ascii Slices

/-- The length of the line in front of its CRLF. -/
def frameFrom (offset : Nat) : List UInt8 → Result Nat
  | [] => .error .incomplete
  | byte :: bytes =>
    if byte = 0x0d ∧ bytes.head? = some 0x0a then .ok offset
    else if isAsciiControl byte then invalidChunk "invalid_line_ending_or_control"
    else if offset = chunkLineBytes then lineLimit (chunkLineBytes + 1)
    else frameFrom (offset + 1) bytes

/-- A byte inside a line. -/
def Inner (byte : UInt8) : Prop := isAsciiControl byte = false

theorem frameFrom_ok (offset stop : Nat) (input : List UInt8) (bound : offset ≤ chunkLineBytes) :
    frameFrom offset input = .ok stop ↔
      ∃ line rest, input = line ++ 0x0d :: 0x0a :: rest ∧ (∀ b ∈ line, Inner b) ∧ stop = offset + line.length ∧
        stop ≤ chunkLineBytes := by
  induction input generalizing offset with
  | nil => simp [frameFrom]
  | cons byte bytes ih =>
    rw [frameFrom]
    constructor
    · intro ok
      split at ok
      · rename_i ended
        obtain ⟨rfl,following⟩ := ended
        obtain ⟨rest,rfl⟩ := List.head?_eq_some_iff.mp following
        cases ok
        exact ⟨[],rest,rfl,by simp,rfl,bound⟩
      · split at ok
        · cases ok
        · rename_i inner
          split at ok
          · cases ok
          · obtain ⟨line,rest,rfl,clean,rfl,fits⟩ := (ih (offset + 1) (by omega)).mp ok
            refine ⟨byte :: line,rest,rfl,?_,by simp only [List.length_cons]; omega,fits⟩
            intro b member
            rcases List.mem_cons.mp member with rfl | inside
            · exact Bool.eq_false_iff.mpr inner
            · exact clean b inside
    · intro described
      obtain ⟨line,rest,same,clean,rfl,fits⟩ := described
      cases line with
      | nil =>
        obtain ⟨rfl,rfl⟩ := List.cons_eq_cons.mp same
        simp
      | cons first line =>
        rw [List.cons_append] at same
        obtain ⟨rfl,rfl⟩ := List.cons_eq_cons.mp same
        have inner : isAsciiControl byte = false := clean byte (by simp)
        have notCr : byte ≠ 0x0d := by
          intro cr
          rw [cr] at inner
          exact absurd inner (by decide)
        simp only [List.length_cons] at fits ih ⊢
        rw [if_neg (by simp [notCr]),if_neg (by simp [inner]),if_neg (by omega),ih (offset + 1) (by omega)]
        exact ⟨line,rest,rfl,fun b member => clean b (by simp [member]),by omega,by omega⟩

/-- The value of hexadecimal digits. -/
def hexNumber (digits : List UInt8) : Nat := digits.foldl (fun value byte => value * 16 + hexDigit byte) 0

def chunkSize (digits : List UInt8) : Result Nat :=
  if digits = [] ∨ digits.length > 16 ∨ digits.all isAsciiHexdigit = false then invalidChunk "invalid_size"
  else if hexNumber digits > chunkSizeLimit then sizeLimit (hexNumber digits)
  else .ok (hexNumber digits)

/-- The bytes between quotes: plain bytes and quoted pairs. -/
inductive Quotable : List UInt8 → Prop where
  | nil : Quotable []
  | plain {byte : UInt8} {raw : List UInt8} :
      byte ≠ 0x22 → byte ≠ 0x5c → Quotable raw → Quotable (byte :: raw)
  | pair {byte : UInt8} {raw : List UInt8} : Quotable raw → Quotable (0x5c :: byte :: raw)

/-- Bytes behind an opening quote that no quote closes. -/
inductive Unclosed : List UInt8 → Prop where
  | nil : Unclosed []
  | dangling : Unclosed [0x5c]
  | plain {byte : UInt8} {bytes : List UInt8} :
      byte ≠ 0x22 → byte ≠ 0x5c → Unclosed bytes → Unclosed (byte :: bytes)
  | pair {byte : UInt8} {bytes : List UInt8} : Unclosed bytes → Unclosed (0x5c :: byte :: bytes)

/-- The bytes up to the closing quote, and what follows it. -/
def closeQuote : List UInt8 → Option (List UInt8 × List UInt8)
  | [] => none
  | byte :: bytes =>
    if byte = 0x22 then some ([],bytes)
    else if byte = 0x5c then
      match bytes with
      | [] => none
      | escaped :: rest => (closeQuote rest).map fun parts => (0x5c :: escaped :: parts.1,parts.2)
    else (closeQuote bytes).map fun parts => (byte :: parts.1,parts.2)

/-- The bytes left after each quoted-pair backslash is deleted. -/
def unescape : List UInt8 → List UInt8
  | [] => []
  | byte :: bytes =>
    if byte = 0x5c then
      match bytes with
      | [] => []
      | escaped :: rest => escaped :: unescape rest
    else byte :: unescape bytes

private theorem closeQuote_plain {byte : UInt8} (notQuote : byte ≠ 0x22) (notEscape : byte ≠ 0x5c)
    (bytes : List UInt8) :
    closeQuote (byte :: bytes) = (closeQuote bytes).map fun parts => (byte :: parts.1,parts.2) := by
  conv_lhs => unfold closeQuote
  simp [notQuote,notEscape]

private theorem closeQuote_pair (byte : UInt8) (bytes : List UInt8) :
    closeQuote (0x5c :: byte :: bytes) =
      (closeQuote bytes).map fun parts => (0x5c :: byte :: parts.1,parts.2) := by
  conv_lhs => unfold closeQuote
  simp

@[simp] theorem unescape_plain {byte : UInt8} (notEscape : byte ≠ 0x5c) (bytes : List UInt8) :
    unescape (byte :: bytes) = byte :: unescape bytes := by
  conv_lhs => unfold unescape
  simp [notEscape]

@[simp] theorem unescape_pair (byte : UInt8) (bytes : List UInt8) :
    unescape (0x5c :: byte :: bytes) = byte :: unescape bytes := by
  conv_lhs => unfold unescape
  simp

theorem closeQuote_closed {raw : List UInt8} (quotable : Quotable raw) (after : List UInt8) :
    closeQuote (raw ++ 0x22 :: after) = some (raw,after) := by
  induction quotable with
  | nil =>
    unfold closeQuote
    simp
  | plain notQuote notEscape _ ih => rw [List.cons_append,closeQuote_plain notQuote notEscape,ih,Option.map_some]
  | pair _ ih => rw [List.cons_append,List.cons_append,closeQuote_pair,ih,Option.map_some]

theorem closeQuote_unclosed {bytes : List UInt8} (unclosed : Unclosed bytes) : closeQuote bytes = none := by
  induction unclosed with
  | nil => rfl
  | dangling => rfl
  | plain notQuote notEscape _ ih => rw [closeQuote_plain notQuote notEscape,ih,Option.map_none]
  | pair _ ih => rw [closeQuote_pair,ih,Option.map_none]

theorem quote_cases (bytes : List UInt8) :
    Unclosed bytes ∨ ∃ raw after, bytes = raw ++ 0x22 :: after ∧ Quotable raw := by
  fun_induction closeQuote bytes with
  | case1 => exact .inl .nil
  | case2 bytes => exact .inr ⟨[],bytes,rfl,.nil⟩
  | case3 => exact .inl .dangling
  | case4 escaped rest _ ih =>
    rcases ih with unclosed | ⟨raw,after,rfl,quotable⟩
    · exact .inl (.pair unclosed)
    · exact .inr ⟨_ :: _ :: raw,after,rfl,.pair quotable⟩
  | case5 byte bytes notQuote notEscape ih =>
    rcases ih with unclosed | ⟨raw,after,rfl,quotable⟩
    · exact .inl (.plain notQuote notEscape unclosed)
    · exact .inr ⟨byte :: raw,after,rfl,.plain notQuote notEscape quotable⟩

inductive Value where
  | token (bytes : List UInt8)
  | quoted (raw : List UInt8)
deriving DecidableEq

structure Extension where
  name : List UInt8
  value : Option Value
deriving DecidableEq

def Value.text : Value → List UInt8
  | .token bytes => 0x3d :: bytes
  | .quoted raw => 0x3d :: 0x22 :: (raw ++ [0x22])

def Extension.text (extension : Extension) : List UInt8 :=
  extension.name ++ (extension.value.map Value.text).getD []

def Value.denote : Value → List UInt8
  | .token bytes => bytes
  | .quoted raw => unescape raw

def Extension.denote (extension : Extension) : ChunkExtension :=
  ⟨extension.name.map toAsciiLowercase,extension.value.map Value.denote⟩

/-- What is wrong with an extension. `stray` is a byte behind the closing quote of a text, `torn` one
behind the closing quote of bytes that are no text. -/
inductive Fault where
  | name
  | value
  | quoted
  | stray (raw : List UInt8)
  | torn
deriving DecidableEq

/-- The list goes on behind a semicolon, ends, or neither. -/
def following : List UInt8 → Option (Option (List UInt8))
  | [] => some none
  | byte :: rest => if byte = 0x3b then some (some rest) else none

/-- A quoted value with what follows its closing quote. -/
def readClosed (raw after : List UInt8) : Except Fault (Value × Option (List UInt8)) :=
  match following after with
  | none => if Utf8.valid (unescape raw) then .error (.stray raw) else .error .torn
  | some rest => if Utf8.valid (unescape raw) then .ok (.quoted raw,rest) else .error .quoted

def readQuoted (body : List UInt8) : Except Fault (Value × Option (List UInt8)) :=
  match closeQuote body with
  | none => .error .quoted
  | some (raw,after) => readClosed raw after

theorem readQuoted_closed {raw : List UInt8} (quotable : Quotable raw) (after : List UInt8) :
    readQuoted (raw ++ 0x22 :: after) = readClosed raw after := by
  rw [readQuoted,closeQuote_closed quotable]

theorem readQuoted_unclosed {bytes : List UInt8} (unclosed : Unclosed bytes) :
    readQuoted bytes = .error .quoted := by
  rw [readQuoted,closeQuote_unclosed unclosed]

def readToken (body : List UInt8) : Except Fault (Value × Option (List UInt8)) :=
  let bytes := body.takeWhile isTchar
  if bytes = [] then .error .value
  else match following (body.dropWhile isTchar) with
    | none => .error .value
    | some rest => .ok (.token bytes,rest)

/-- A value behind its equals sign. -/
def readBody (body : List UInt8) : Except Fault (Value × Option (List UInt8)) :=
  if body.head? = some 0x22 then readQuoted body.tail else readToken body

def readExtension (text : List UInt8) : Except Fault (Extension × Option (List UInt8)) :=
  let name := text.takeWhile isTchar
  if !withinName name.length then .error .name
  else match text.dropWhile isTchar with
    | [] => .ok (⟨name,none⟩,none)
    | byte :: body =>
      if byte = 0x3b then .ok (⟨name,none⟩,some body)
      else if byte = 0x3d then do
        let (value,rest) ← readBody body
        .ok (⟨name,some value⟩,rest)
      else .error .name

inductive Ending where
  | done
  | overflow
  | faulty (fault : Fault)
deriving DecidableEq

/-- The extensions in front of the first fault, at most `count` of them, and how the list ends. -/
def readAll : Nat → Option (List UInt8) → List Extension × Ending
  | _,none => ([],.done)
  | 0,some _ => ([],.overflow)
  | count + 1,some text =>
    match readExtension text with
    | .error fault => ([],.faulty fault)
    | .ok (extension,rest) => (extension :: (readAll count rest).1,(readAll count rest).2)

/-- What is left to read, with the semicolon in front of it. -/
def joined : Option (List UInt8) → List UInt8
  | none => []
  | some text => 0x3b :: text

theorem following_eq_some {after : List UInt8} {rest : Option (List UInt8)} :
    following after = some rest ↔ after = joined rest := by
  cases after with
  | nil => cases rest <;> simp [following,joined]
  | cons byte bytes =>
    by_cases semicolon : byte = 0x3b
    · cases rest <;> simp [following,joined,semicolon]
    · cases rest <;> simp [following,joined,semicolon]

/-- The shape of a value: a token or a quoted string. -/
def Value.Formed : Value → Prop
  | .token bytes => bytes ≠ [] ∧ bytes.all isTchar
  | .quoted raw => Quotable raw

/-- A value whose bytes are a text. -/
def Value.Sound (value : Value) : Prop := value.Formed ∧ Utf8.valid value.denote

def Extension.Formed (extension : Extension) : Prop :=
  withinName extension.name.length ∧ extension.name.all isTchar ∧ ∀ value ∈ extension.value, value.Formed

/-- A well-formed extension whose value is a text. -/
def Extension.Sound (extension : Extension) : Prop :=
  withinName extension.name.length ∧ extension.name.all isTchar ∧ ∀ value ∈ extension.value, value.Sound

theorem token_text {bytes : List UInt8} (tokens : bytes.all isTchar) : Utf8.valid bytes := by
  apply Utf8.valid_of_ascii
  intro b member
  exact tchar_ascii b (List.all_eq_true.mp tokens b member)

theorem token_split {tokens after : List UInt8} (all : tokens.all isTchar)
    (stop : ∀ b ∈ after.head?, isTchar b = false) :
    (tokens ++ after).takeWhile isTchar = tokens ∧ (tokens ++ after).dropWhile isTchar = after := by
  have hits : ∀ b ∈ tokens, isTchar b := List.all_eq_true.mp all
  cases after with
  | nil =>
    rw [List.append_nil]
    exact ⟨List.takeWhile_eq_self_iff.mpr hits,List.dropWhile_eq_nil_iff.mpr hits⟩
  | cons byte bytes =>
    have halt := stop byte (by simp)
    exact ⟨takeWhile_append_hit bytes hits halt,dropWhile_append_hit bytes hits halt⟩

theorem joined_stop (rest : Option (List UInt8)) : ∀ b ∈ (joined rest).head?, isTchar b = false := by
  intro b member
  cases rest with
  | none => simp [joined] at member
  | some text =>
    obtain rfl : 0x3b = b := by simpa [joined] using member
    decide

theorem readBody_ok_iff (body : List UInt8) (value : Value) (rest : Option (List UInt8)) :
    readBody body = .ok (value,rest) ↔ value.Sound ∧ 0x3d :: body = value.text ++ joined rest := by
  constructor
  · intro ok
    unfold readBody at ok
    split at ok
    · rename_i quote
      obtain ⟨inside,rfl⟩ := List.head?_eq_some_iff.mp quote
      rw [List.tail_cons] at ok
      rcases quote_cases inside with unclosed | ⟨raw,after,rfl,quotable⟩
      · rw [readQuoted_unclosed unclosed] at ok
        cases ok
      · rw [readQuoted_closed quotable,readClosed] at ok
        repeat' split at ok
        all_goals cases ok
        rename_i valid found
        refine ⟨⟨quotable,valid⟩,?_⟩
        rw [following_eq_some.mp found]
        simp [Value.text]
    · unfold readToken at ok
      simp only at ok
      repeat' split at ok
      all_goals cases ok
      rename_i filled _ found
      refine ⟨⟨⟨filled,List.all_takeWhile⟩,token_text List.all_takeWhile⟩,?_⟩
      rw [Value.text,List.cons_append,← following_eq_some.mp found,List.takeWhile_append_dropWhile]
  · intro described
    obtain ⟨sound,same⟩ := described
    cases value with
    | token bytes =>
      obtain ⟨⟨filled,tokens⟩,_⟩ := sound
      obtain rfl : body = bytes ++ joined rest := (List.cons_eq_cons.mp same).2
      obtain ⟨taken,dropped⟩ := token_split tokens (joined_stop rest)
      obtain ⟨first,later,rfl⟩ := List.exists_cons_of_ne_nil filled
      have unquoted : ((first :: later) ++ joined rest).head? ≠ some 0x22 := by
        intro quote
        obtain rfl : first = 0x22 := by simpa using quote
        exact absurd (List.all_eq_true.mp tokens 0x22 (by simp)) (by decide)
      rw [readBody,if_neg unquoted,readToken,taken,dropped,following_eq_some.mpr rfl]
      simp
    | quoted raw =>
      obtain ⟨quotable,valid⟩ := sound
      obtain rfl : body = 0x22 :: (raw ++ 0x22 :: joined rest) := by
        simpa [Value.text] using (List.cons_eq_cons.mp same).2
      have text : Utf8.valid (unescape raw) = true := valid
      rw [readBody,if_pos (by simp),List.tail_cons,readQuoted_closed quotable,readClosed,
        following_eq_some.mpr rfl]
      simp [text]

theorem readExtension_ok_iff (text : List UInt8) (extension : Extension) (rest : Option (List UInt8)) :
    readExtension text = .ok (extension,rest) ↔ extension.Sound ∧ text = extension.text ++ joined rest := by
  constructor
  · intro ok
    have split := List.takeWhile_append_dropWhile (p := isTchar) (l := text)
    unfold readExtension at ok
    simp only at ok
    split at ok
    · cases ok
    · rename_i within
      have within : withinName (text.takeWhile isTchar).length := by simpa using within
      cases behind : text.dropWhile isTchar with
      | nil =>
        rw [behind] at ok split
        cases ok
        refine ⟨⟨within,List.all_takeWhile,by simp⟩,?_⟩
        simpa [Extension.text,joined] using split.symm
      | cons byte body =>
        rw [behind] at ok split
        by_cases semicolon : byte = 0x3b
        · rw [semicolon] at ok split
          cases ok
          refine ⟨⟨within,List.all_takeWhile,by simp⟩,?_⟩
          simpa [Extension.text,joined] using split.symm
        · by_cases equals : byte = 0x3d
          · simp only [equals] at ok split
            cases read : readBody body with
            | error fault =>
              rw [read] at ok
              cases ok
            | ok parts =>
              obtain ⟨value,later⟩ := parts
              rw [read] at ok
              cases ok
              obtain ⟨sound,same⟩ := (readBody_ok_iff body value later).mp read
              refine ⟨⟨within,List.all_takeWhile,by simpa using sound⟩,?_⟩
              rw [Extension.text,Option.map_some,Option.getD_some,List.append_assoc,← same]
              exact split.symm
          · simp only [semicolon,equals,if_false] at ok
            cases ok
  · intro described
    obtain ⟨⟨within,tokens,valued⟩,rfl⟩ := described
    obtain ⟨name,value⟩ := extension
    cases value with
    | none =>
      have text : Extension.text ⟨name,none⟩ ++ joined rest = name ++ joined rest := by simp [Extension.text]
      obtain ⟨taken,dropped⟩ := token_split tokens (joined_stop rest)
      rw [text,readExtension]
      simp only [taken,dropped,within]
      cases rest <;> rfl
    | some value =>
      have sound := valued value rfl
      have shape : ∃ body, value.text ++ joined rest = 0x3d :: body := by cases value <;> simp [Value.text]
      obtain ⟨body,same⟩ := shape
      have text : Extension.text ⟨name,some value⟩ ++ joined rest = name ++ 0x3d :: body := by
        rw [← same]
        simp [Extension.text]
      have stop : ∀ b ∈ (0x3d :: body).head?, isTchar b = false := by
        intro b member
        obtain rfl : 0x3d = b := by simpa using member
        decide
      obtain ⟨taken,dropped⟩ := token_split tokens stop
      have read := (readBody_ok_iff body value rest).mpr ⟨sound,same.symm⟩
      rw [text,readExtension]
      simp only [taken,dropped,within,read]
      rfl

/-- The bytes hold one outside ASCII. -/
def isForeign (bytes : List UInt8) : Bool := bytes.any fun byte => !isAscii byte

def Value.isForeign : Value → Bool
  | .token _ => false
  | .quoted raw => ChunkGrammar.isForeign raw

def Extension.isForeign (extension : Extension) : Bool := extension.value.any Value.isForeign

theorem unescape_subset {raw : List UInt8} {byte : UInt8} (member : byte ∈ unescape raw) : byte ∈ raw := by
  fun_induction unescape raw with
  | case1 => exact member
  | case2 => simp at member
  | case3 escaped rest ih =>
    rcases List.mem_cons.mp member with rfl | later
    · simp
    · simp [ih later]
  | case4 first bytes notEscape ih =>
    rcases List.mem_cons.mp member with rfl | later
    · simp
    · simp [ih later]

end Polyguard.ChunkGrammar
