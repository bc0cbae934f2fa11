import Polyguard.Nginx.Directives
import Polyguard.Bytes.Utf8

/-! The tokens of a configuration file. One cursor runs over the bytes of the file and
one counter over its lines; a word may be quoted, and a backslash takes the next byte as
it is. The layouts of a token list are the texts that a writer may produce for it. -/
namespace Polyguard.Nginx
open Ascii

inductive TokenKind where
  | word (value : List UInt8)
  | leftBrace
  | rightBrace
  | semicolon
deriving DecidableEq, Repr

structure Token where
  kind : TokenKind
  line : Nat
deriving DecidableEq, Repr

def isBlank (byte : UInt8) : Bool := byte == 0x20 || byte == 0x09 || byte == 0x0d

def isQuote (byte : UInt8) : Bool := byte == 0x27 || byte == 0x22

/-- The bytes that end a bare word. -/
def endsWord (byte : UInt8) : Bool :=
  isBlank byte || byte == 0x0a || byte == 0x7b || byte == 0x7d || byte == 0x3b || byte == 0x23

def lineAfter (line : Nat) (byte : UInt8) : Nat := if byte == 0x0a then line + 1 else line

/-- The loop over the bytes of one word: its value, the line it ends on and what follows. -/
def readWord (path : List UInt8) (tokenLine : Nat) (quote : Option UInt8) (value : List UInt8) (line : Nat) :
    List UInt8 → Except NginxError (List UInt8 × Nat × List UInt8)
  | [] =>
    if quote.isSome then .error (.syntaxError path tokenLine (ascii "unterminated quoted value"))
    else .ok (value,line,[])
  | byte :: bytes =>
    if quote == some byte then .ok (value,line,bytes)
    else if quote.isNone && endsWord byte then .ok (value,line,byte :: bytes)
    else if byte == 0x5c then
      match bytes with
      | [] => .error (.syntaxError path tokenLine (ascii "trailing escape"))
      | escaped :: rest => readWord path tokenLine quote (value ++ [escaped]) (lineAfter line escaped) rest
    else readWord path tokenLine quote (value ++ [byte]) (lineAfter line byte) bytes

theorem readWord_length {path : List UInt8} {tokenLine : Nat} {quote : Option UInt8} {value : List UInt8} {line : Nat}
    {bytes read : List UInt8} {next : Nat} {rest : List UInt8}
    (ok : readWord path tokenLine quote value line bytes = .ok (read,next,rest)) : rest.length ≤ bytes.length := by
  fun_induction readWord path tokenLine quote value line bytes with
  | case1 value line quoted => cases ok
  | case2 value line bare => cases ok; simp
  | case3 value line byte bytes closes => cases ok; simp
  | case4 value line byte bytes _ ends => cases ok; simp
  | case5 value line byte _ _ escape => cases ok
  | case6 value line byte _ _ escape escaped rest ih =>
    have := ih ok
    simp only [List.length_cons]
    omega
  | case7 value line byte bytes _ _ _ ih =>
    have := ih ok
    simp only [List.length_cons]
    omega

def openingQuote (byte : UInt8) : Option UInt8 := if isQuote byte then some byte else none

/-- The bytes that the loop over a word starts on. -/
def wordBytes (byte : UInt8) (bytes : List UInt8) : List UInt8 := if isQuote byte then bytes else byte :: bytes

theorem readWord_shorter {path : List UInt8} {tokenLine : Nat} {byte : UInt8} {bytes : List UInt8} {line : Nat}
    (starts : endsWord byte = false) {read : List UInt8} {next : Nat} {rest : List UInt8}
    (ok : readWord path tokenLine (openingQuote byte) [] line (wordBytes byte bytes) = .ok (read,next,rest)) :
    rest.length ≤ bytes.length := by
  by_cases quoted : isQuote byte = true
  · rw [wordBytes,if_pos quoted] at ok
    exact readWord_length ok
  · rw [openingQuote,wordBytes,if_neg quoted,if_neg quoted] at ok
    unfold readWord at ok
    simp only [reduceCtorEq,beq_iff_eq,starts,Option.isNone_none,Bool.and_false,Bool.false_eq_true,if_false] at ok
    split at ok
    · cases bytes with
      | nil => cases ok
      | cons escaped bytes =>
        have := readWord_length ok
        simp only [List.length_cons]
        omega
    · exact readWord_length ok

/-- The loop over the tokens of a file. -/
def tokenizeFrom (path : List UInt8) (line : Nat) (tokens : List Token) : List UInt8 → Except NginxError (List Token)
  | [] => .ok tokens
  | byte :: bytes =>
    if isBlank byte then tokenizeFrom path line tokens bytes
    else if byte == 0x0a then tokenizeFrom path (line + 1) tokens bytes
    else if byte == 0x23 then tokenizeFrom path line tokens (bytes.dropWhile (· != 0x0a))
    else if byte == 0x7b then tokenizeFrom path line (tokens ++ [⟨.leftBrace,line⟩]) bytes
    else if byte == 0x7d then tokenizeFrom path line (tokens ++ [⟨.rightBrace,line⟩]) bytes
    else if byte == 0x3b then tokenizeFrom path line (tokens ++ [⟨.semicolon,line⟩]) bytes
    else
      match _outcome : readWord path line (openingQuote byte) [] line (wordBytes byte bytes) with
      | .error error => .error error
      | .ok (value,next,rest) =>
        match Utf8.fromUtf8 value with
        | none => .error (.syntaxError path line (ascii "configuration values must be UTF-8"))
        | some value =>
          if value.isEmpty && (openingQuote byte).isNone then tokenizeFrom path next tokens rest
          else tokenizeFrom path next (tokens ++ [⟨.word value,line⟩]) rest
termination_by bytes => bytes.length
decreasing_by
  all_goals simp only [List.length_cons]
  · omega
  · omega
  · have := (List.dropWhile_suffix (l := bytes) (· != 0x0a)).length_le
    omega
  · omega
  · omega
  · omega
  all_goals
    have := readWord_shorter (by simp_all [endsWord]) _outcome
    omega

def tokenize (path source : List UInt8) : Except NginxError (List Token) := tokenizeFrom path 1 [] source

section Words

/-- The bytes that the loop takes into the value as they stand. -/
def isPlain (quote : Option UInt8) (byte : UInt8) : Bool :=
  byte != 0x5c && quote != some byte && !(quote.isNone && endsWord byte)

variable {path : List UInt8} {tokenLine : Nat} {quote : Option UInt8}

theorem readWord_cons {byte : UInt8} (escape : byte ≠ 0x5c) (value : List UInt8) (line : Nat) (bytes : List UInt8) :
    readWord path tokenLine quote value line (byte :: bytes) =
      if quote == some byte then .ok (value,line,bytes)
      else if quote.isNone && endsWord byte then .ok (value,line,byte :: bytes)
      else readWord path tokenLine quote (value ++ [byte]) (lineAfter line byte) bytes := by
  conv_lhs => unfold readWord
  rw [if_neg (by simpa using escape : ¬(byte == 0x5c) = true)]

theorem readWord_plain {text : List UInt8} (plain : text.all (isPlain quote)) (value : List UInt8) (line : Nat)
    (rest : List UInt8) : readWord path tokenLine quote value line (text ++ rest) =
      readWord path tokenLine quote (value ++ text) (line + text.count 0x0a) rest := by
  induction text generalizing value line with
  | nil => simp
  | cons byte text ih =>
    simp only [List.all_cons,isPlain,Bool.and_eq_true,bne_iff_ne,ne_eq,Bool.not_eq_true'] at plain
    obtain ⟨⟨⟨escape,closes⟩,ends⟩,later⟩ := plain
    rw [List.cons_append,readWord_cons escape,if_neg (by simpa using closes),if_neg (by simp [ends]),ih later]
    simp only [List.append_assoc,List.cons_append,List.nil_append,lineAfter,List.count_cons]
    split
    · congr 1
      omega
    · congr 1

theorem readWord_escape (quotes : quote.all isQuote) (value : List UInt8) (line : Nat) (escaped : UInt8)
    (rest : List UInt8) : readWord path tokenLine quote value line (0x5c :: escaped :: rest) =
      readWord path tokenLine quote (value ++ [escaped]) (lineAfter line escaped) rest := by
  have other : quote ≠ some 0x5c := by
    rintro rfl
    exact absurd quotes (by decide)
  have noEnd : endsWord 0x5c = false := by decide
  rw [readWord,if_neg (by simpa using other),if_neg (by simp [noEnd]),if_pos (by rfl)]

theorem readWord_error {value : List UInt8} {line : Nat} {bytes : List UInt8} {error : NginxError}
    (failed : readWord path tokenLine quote value line bytes = .error error) :
    error = .syntaxError path tokenLine (ascii "unterminated quoted value") ∨
      error = .syntaxError path tokenLine (ascii "trailing escape") := by
  fun_induction readWord path tokenLine quote value line bytes with
  | case1 value line quoted => cases failed; exact .inl rfl
  | case2 value line bare => cases failed
  | case3 value line byte bytes closes => cases failed
  | case4 value line byte bytes _ ends => cases failed
  | case5 value line byte _ _ escape => cases failed; exact .inr rfl
  | case6 value line byte _ _ escape escaped rest ih => exact ih failed
  | case7 value line byte bytes _ _ _ ih => exact ih failed

end Words

section Utf8

theorem large_plain {byte : UInt8} (large : isAscii byte = false) (quote : Option UInt8) (quotes : quote.all isQuote) :
    isPlain quote byte := by
  have facts : byte ≠ 0x5c ∧ isQuote byte = false ∧ endsWord byte = false := by
    revert large
    exact forall_byte (p := fun b => isAscii b = false → b ≠ 0x5c ∧ isQuote b = false ∧ endsWord b = false) (by decide) byte
  obtain ⟨escape,noQuote,noEnd⟩ := facts
  have other : quote ≠ some byte := by
    rintro rfl
    simp [noQuote] at quotes
  simp [isPlain,escape,noEnd,other]

theorem readWord_text {path : List UInt8} {tokenLine : Nat} {quote : Option UInt8} (quotes : quote.all isQuote)
    {bytes : List UInt8} (text : Utf8.valid bytes) : ∀ {value : List UInt8} {line : Nat} {read : List UInt8} {next : Nat}
      {rest : List UInt8}, Utf8.valid value → readWord path tokenLine quote value line bytes = .ok (read,next,rest) →
        Utf8.valid read ∧ Utf8.valid rest := by
  -- a backslash may stand before the first byte of a character, so both readings are carried along
  suffices both : ∀ {value : List UInt8} {line : Nat} {read : List UInt8} {next : Nat} {rest : List UInt8},
      Utf8.valid value → readWord path tokenLine quote value line bytes = .ok (read,next,rest) ∨
        readWord path tokenLine quote value line (0x5c :: bytes) = .ok (read,next,rest) →
        Utf8.valid read ∧ Utf8.valid rest by
    intro value line read next rest valid ok
    exact both valid (.inl ok)
  refine Utf8.valid_characters (motive := fun bytes => ∀ {value : List UInt8} {line : Nat} {read : List UInt8} {next : Nat}
      {rest : List UInt8}, Utf8.valid value → readWord path tokenLine quote value line bytes = .ok (read,next,rest) ∨
        readWord path tokenLine quote value line (0x5c :: bytes) = .ok (read,next,rest) →
        Utf8.valid read ∧ Utf8.valid rest) ?_ ?_ ?_ text
  · rintro value line read next rest valid (ok | ok)
    · unfold readWord at ok
      split at ok
      · cases ok
      · cases ok
        exact ⟨valid,rfl⟩
    · unfold readWord at ok
      split_ifs at ok with closes ends escape
      · cases ok
        exact ⟨valid,rfl⟩
      · cases ok
        exact ⟨valid,rfl⟩
      · exact absurd rfl escape
  · intro byte bytes small later ih value line read next rest valid ok
    have longer : Utf8.valid (value ++ [byte]) := by
      rw [Utf8.valid_append valid,Utf8.valid_cons small]
      rfl
    obtain ok | ok := ok
    · unfold readWord at ok
      split_ifs at ok with closes ends escape
      · cases ok
        exact ⟨valid,later⟩
      · cases ok
        exact ⟨valid,by rwa [Utf8.valid_cons small]⟩
      · rw [beq_iff_eq] at escape
        subst escape
        have taken : readWord path tokenLine quote value line (0x5c :: bytes) = .ok (read,next,rest) := by
          unfold readWord
          rw [if_neg closes,if_neg ends]
          exact ok
        exact ih valid (.inr taken)
      · exact ih longer (.inl ok)
    · rw [readWord_escape quotes] at ok
      exact ih longer (.inl ok)
  · intro character bytes encoded later ih value line read next rest valid ok
    have longer : Utf8.valid (value ++ character) := by
      rw [Utf8.valid_append valid]
      simpa [Utf8.valid] using encoded.front []
    have plain : character.all (isPlain quote) :=
      List.all_eq_true.mpr fun byte member => large_plain (encoded.large byte member) quote quotes
    obtain ok | ok := ok
    · rw [readWord_plain plain] at ok
      exact ih longer (.inl ok)
    · cases character with
      | nil => exact absurd rfl encoded.nonempty
      | cons first others =>
        rw [List.cons_append,readWord_escape quotes,readWord_plain (by simp_all)] at ok
        rw [List.append_assoc] at ok
        exact ih longer (.inl ok)

theorem valid_dropWhile {bytes : List UInt8} (text : Utf8.valid bytes) : Utf8.valid (bytes.dropWhile (· != 0x0a)) := by
  refine Utf8.valid_characters (motive := fun bytes => Utf8.valid (bytes.dropWhile (· != 0x0a))) rfl ?_ ?_ text
  · intro byte bytes small later ih
    rw [List.dropWhile_cons]
    split
    · exact ih
    · rwa [Utf8.valid_cons small]
  · intro character bytes encoded later ih
    have inside : ∀ byte ∈ character, (byte != 0x0a) = true := by
      intro byte member
      have large := encoded.large byte member
      rw [bne_iff_ne]
      rintro rfl
      exact absurd large (by decide)
    rwa [List.dropWhile_append_of_pos inside]

theorem openingQuote_quotes (byte : UInt8) : (openingQuote byte).all isQuote := by
  unfold openingQuote
  split <;> simp_all

theorem wordBytes_text {byte : UInt8} {bytes : List UInt8} (text : Utf8.valid (byte :: bytes)) :
    Utf8.valid (wordBytes byte bytes) := by
  unfold wordBytes
  split
  · rename_i quote
    have small : isAscii byte := by
      revert quote
      exact forall_byte (p := fun b => isQuote b → isAscii b) (by decide) byte
    rwa [Utf8.valid_cons small] at text
  · exact text

theorem tokenizeFrom_text (path : List UInt8) {bytes : List UInt8} (text : Utf8.valid bytes) (line : Nat)
    (tokens : List Token) (reported : Nat) : tokenizeFrom path line tokens bytes ≠
      .error (.syntaxError path reported (ascii "configuration values must be UTF-8")) := by
  have delimiter : ∀ {byte : UInt8} {bytes : List UInt8}, isBlank byte ∨ byte = 0x0a ∨ byte = 0x23 ∨ byte = 0x7b ∨
      byte = 0x7d ∨ byte = 0x3b → Utf8.valid (byte :: bytes) → Utf8.valid bytes := by
    intro byte bytes special text
    have small : isAscii byte := by
      revert special
      exact forall_byte (p := fun b => isBlank b ∨ b = 0x0a ∨ b = 0x23 ∨ b = 0x7b ∨ b = 0x7d ∨ b = 0x3b → isAscii b)
        (by decide) byte
    rwa [Utf8.valid_cons small] at text
  fun_induction tokenizeFrom path line tokens bytes with
  | case1 line tokens => simp
  | case2 line tokens byte bytes blank ih => exact ih (delimiter (.inl blank) text)
  | case3 line tokens byte bytes _ newline ih => exact ih (delimiter (by simp_all) text)
  | case4 line tokens byte bytes _ _ hash ih => exact ih (valid_dropWhile (delimiter (by simp_all) text))
  | case5 line tokens byte bytes _ _ _ opens ih => exact ih (delimiter (by simp_all) text)
  | case6 line tokens byte bytes _ _ _ _ closes ih => exact ih (delimiter (by simp_all) text)
  | case7 line tokens byte bytes _ _ _ _ _ ends ih => exact ih (delimiter (by simp_all) text)
  | case8 line tokens byte bytes _ _ _ _ _ _ error failed =>
    obtain rfl | rfl := readWord_error failed
    · simp only [ne_eq,Except.error.injEq,NginxError.syntaxError.injEq]
      exact fun same => absurd same.2.2 (by decide)
    · simp only [ne_eq,Except.error.injEq,NginxError.syntaxError.injEq]
      exact fun same => absurd same.2.2 (by decide)
  | case9 line tokens byte bytes _ _ _ _ _ _ value next rest outcome torn =>
    have read := readWord_text (openingQuote_quotes byte) (wordBytes_text text) rfl outcome
    rw [Utf8.fromUtf8,if_pos read.1] at torn
    cases torn
  | case10 line tokens byte bytes _ _ _ _ _ _ read next rest outcome value whole empty ih =>
    exact ih (readWord_text (openingQuote_quotes byte) (wordBytes_text text) rfl outcome).2
  | case11 line tokens byte bytes _ _ _ _ _ _ read next rest outcome value whole empty ih =>
    exact ih (readWord_text (openingQuote_quotes byte) (wordBytes_text text) rfl outcome).2

end Utf8

section Layouts

/-- What may stand between two tokens. -/
inductive Space where
  | blank (byte : UInt8) (blank : isBlank byte)
  | newline
  | comment (text : List UInt8) (inside : 0x0a ∉ text)

def Space.bytes : Space → List UInt8
  | .blank byte _ => [byte]
  | .newline => [0x0a]
  | .comment text _ => 0x23 :: (text ++ [0x0a])

def gapBytes (gap : List Space) : List UInt8 := gap.flatMap Space.bytes

/-- A byte of a quoted word, after a backslash where it would end the word or escape. -/
def quotedByte (quote byte : UInt8) : List UInt8 := if byte = quote ∨ byte = 0x5c then [0x5c,byte] else [byte]

structure Bare (word : List UInt8) : Prop where
  nonempty : word ≠ []
  free : ∀ byte ∈ word, endsWord byte = false ∧ isQuote byte = false ∧ byte ≠ 0x5c

/-- The ways of writing a token. -/
inductive Spelling : TokenKind → List UInt8 → Prop
  | quoted (word : List UInt8) (text : Utf8.valid word) (quote : UInt8) (mark : isQuote quote) :
      Spelling (.word word) (quote :: (word.flatMap (quotedByte quote) ++ [quote]))
  | bare (word : List UInt8) (text : Utf8.valid word) (free : Bare word) : Spelling (.word word) word
  | leftBrace : Spelling .leftBrace [0x7b]
  | rightBrace : Spelling .rightBrace [0x7d]
  | semicolon : Spelling .semicolon [0x3b]

/-- A token as it is written, with the gap after it. -/
structure Item where
  kind : TokenKind
  text : List UInt8
  spelled : Spelling kind text
  gap : List Space

def Item.bytes (item : Item) : List UInt8 := item.text ++ gapBytes item.gap

structure Layout where
  before : List Space
  items : List Item
  separated : ∀ item ∈ items.dropLast, item.gap ≠ []

def Layout.source (layout : Layout) : List UInt8 := gapBytes layout.before ++ layout.items.flatMap Item.bytes

/-- The tokens of the items that follow a text, each on the line that the text before it has reached. -/
def tokensAfter (before : List UInt8) : List Item → List Token
  | [] => []
  | item :: items => ⟨item.kind,1 + before.count 0x0a⟩ :: tokensAfter (before ++ item.bytes) items

def Layout.tokens (layout : Layout) : List Token := tokensAfter (gapBytes layout.before) layout.items

variable (path : List UInt8)

theorem tokenizeFrom_space (space : Space) (line : Nat) (tokens : List Token) (rest : List UInt8) :
    tokenizeFrom path line tokens (space.bytes ++ rest) =
      tokenizeFrom path (line + space.bytes.count 0x0a) tokens rest := by
  have newline : ∀ line, tokenizeFrom path line tokens (0x0a :: rest) = tokenizeFrom path (line + 1) tokens rest := by
    intro line
    rw [tokenizeFrom]
    rfl
  cases space with
  | blank byte blank =>
    have other : byte ≠ 0x0a := by
      rintro rfl
      exact absurd blank (by decide)
    rw [Space.bytes,List.cons_append,tokenizeFrom,if_pos blank]
    simp [other]
  | newline => exact newline line
  | comment text inside =>
    have passed : ∀ byte ∈ text, (byte != 0x0a) = true := by
      intro byte member
      rw [bne_iff_ne]
      rintro rfl
      exact inside member
    rw [Space.bytes,List.cons_append,List.append_assoc,tokenizeFrom]
    rw [if_neg (by decide),if_neg (by decide),if_pos (by decide),List.dropWhile_append_of_pos passed]
    simpa [List.count_cons,List.count_eq_zero_of_not_mem inside] using newline line

theorem tokenizeFrom_gap (gap : List Space) (line : Nat) (tokens : List Token) (rest : List UInt8) :
    tokenizeFrom path line tokens (gapBytes gap ++ rest) =
      tokenizeFrom path (line + (gapBytes gap).count 0x0a) tokens rest := by
  induction gap generalizing line with
  | nil => rfl
  | cons space gap ih =>
    rw [gapBytes,List.flatMap_cons,List.append_assoc,tokenizeFrom_space]
    exact (ih _).trans (by rw [List.count_append,Nat.add_assoc]; rfl)

theorem tokenizeFrom_word {byte : UInt8} (starts : endsWord byte = false) {bytes value rest : List UInt8}
    {line next : Nat} (outcome : readWord path line (openingQuote byte) [] line (wordBytes byte bytes) = .ok (value,next,rest))
    (text : Utf8.valid value) (kept : value ≠ [] ∨ isQuote byte) (tokens : List Token) :
    tokenizeFrom path line tokens (byte :: bytes) = tokenizeFrom path next (tokens ++ [⟨.word value,line⟩]) rest := by
  simp only [endsWord,Bool.or_eq_false_iff] at starts
  obtain ⟨⟨⟨⟨⟨blank,newline⟩,opens⟩,closes⟩,ends⟩,hash⟩ := starts
  have kept : (value.isEmpty && (openingQuote byte).isNone) = false := by
    obtain full | quote := kept
    · simp [full]
    · simp [openingQuote,quote]
  rw [tokenizeFrom]
  simp only [blank,newline,opens,closes,ends,hash,Bool.false_eq_true,if_false]
  split
  · rename_i failed
    rw [outcome] at failed
    cases failed
  · rename_i outcome'
    rw [outcome] at outcome'
    cases outcome'
    simp [Utf8.fromUtf8,text,kept]

theorem readWord_quoted {tokenLine : Nat} {quote : UInt8} (mark : isQuote quote) (word value : List UInt8) (line : Nat)
    (rest : List UInt8) :
    readWord path tokenLine (some quote) value line (word.flatMap (quotedByte quote) ++ quote :: rest) =
      .ok (value ++ word,line + (word.flatMap (quotedByte quote)).count 0x0a,rest) := by
  have slash : quote ≠ 0x5c := by
    rintro rfl
    exact absurd mark (by decide)
  induction word generalizing value line with
  | nil => rw [List.flatMap_nil,List.nil_append,readWord_cons slash,if_pos (by simp)]; simp
  | cons byte word ih =>
    rw [List.flatMap_cons,List.append_assoc,quotedByte]
    split
    · rw [List.cons_append,List.cons_append,List.nil_append,readWord_escape (by simpa using mark),ih]
      simp only [List.append_assoc,List.cons_append,List.nil_append,lineAfter,List.count_cons,Except.ok.injEq,
        Prod.mk.injEq,true_and,and_true]
      split
      · simp_all
        omega
      · simp_all
    · rename_i plain
      rw [not_or] at plain
      rw [readWord_plain (by simp [isPlain,plain.2,Ne.symm plain.1]),ih]
      rw [List.append_assoc,List.count_append,Nat.add_assoc]
      rfl

/-- What may follow a bare word. -/
def EndsHere (rest : List UInt8) : Prop := ∀ byte ∈ rest.head?, endsWord byte

theorem readWord_bare {tokenLine : Nat} {word rest : List UInt8} (free : Bare word) (ends : EndsHere rest) (line : Nat) :
    readWord path tokenLine none [] line (word ++ rest) = .ok (word,line + word.count 0x0a,rest) := by
  have plain : word.all (isPlain none) := by
    rw [List.all_eq_true]
    intro byte member
    obtain ⟨noEnd,_,escape⟩ := free.free byte member
    simp [isPlain,noEnd,escape]
  rw [readWord_plain plain,List.nil_append]
  cases rest with
  | nil => rfl
  | cons byte rest =>
    have last : endsWord byte := ends byte rfl
    have escape : byte ≠ 0x5c := by
      rintro rfl
      exact absurd last (by decide)
    rw [readWord_cons escape,if_neg (by simp),if_pos (by simpa using last)]

theorem tokenizeFrom_spelling {kind : TokenKind} {text : List UInt8} (spelled : Spelling kind text) {rest : List UInt8}
    (ends : EndsHere rest) (line : Nat) (tokens : List Token) : tokenizeFrom path line tokens (text ++ rest) =
      tokenizeFrom path (line + text.count 0x0a) (tokens ++ [⟨kind,line⟩]) rest := by
  cases spelled with
  | quoted word valid quote mark =>
    have facts : endsWord quote = false ∧ quote ≠ 0x0a := by
      revert mark
      exact forall_byte (p := fun b => isQuote b → endsWord b = false ∧ b ≠ 0x0a) (by decide) quote
    have outcome : readWord path line (openingQuote quote) [] line
        (wordBytes quote (word.flatMap (quotedByte quote) ++ quote :: rest)) =
          .ok (word,line + (word.flatMap (quotedByte quote)).count 0x0a,rest) := by
      simpa [openingQuote,wordBytes,mark] using readWord_quoted path mark word [] line rest
    rw [List.cons_append,List.append_assoc,List.cons_append,List.nil_append,
      tokenizeFrom_word path facts.1 outcome valid (.inr mark)]
    simp [facts.2]
  | bare word valid free =>
    cases text with
    | nil => exact absurd rfl free.nonempty
    | cons byte word =>
      obtain ⟨noEnd,noQuote,_⟩ := free.free byte (by simp)
      have outcome : readWord path line (openingQuote byte) [] line (wordBytes byte (word ++ rest)) =
          .ok (byte :: word,line + (byte :: word).count 0x0a,rest) := by
        simpa [openingQuote,wordBytes,noQuote] using readWord_bare path free ends line
      exact tokenizeFrom_word path noEnd outcome valid (.inl free.nonempty) tokens
  | leftBrace =>
    rw [List.cons_append,tokenizeFrom]
    rfl
  | rightBrace =>
    rw [List.cons_append,tokenizeFrom]
    rfl
  | semicolon =>
    rw [List.cons_append,tokenizeFrom]
    rfl

theorem gap_ends {gap : List Space} (some : gap ≠ []) (rest : List UInt8) : EndsHere (gapBytes gap ++ rest) := by
  cases gap with
  | nil => exact absurd rfl some
  | cons space gap =>
    rw [gapBytes,List.flatMap_cons,List.append_assoc]
    cases space with
    | blank byte blank => simpa [EndsHere,Space.bytes,endsWord] using .inl (.inl (.inl (.inl (.inl blank))))
    | newline => simp [EndsHere,Space.bytes,endsWord]
    | comment text inside => simp [EndsHere,Space.bytes,endsWord]

theorem tokenizeFrom_items {items : List Item} (separated : ∀ item ∈ items.dropLast, item.gap ≠ []) (before : List UInt8)
    (tokens : List Token) : tokenizeFrom path (1 + before.count 0x0a) tokens (items.flatMap Item.bytes) =
      .ok (tokens ++ tokensAfter before items) := by
  induction items generalizing before tokens with
  | nil => rw [List.flatMap_nil,tokenizeFrom,tokensAfter,List.append_nil]
  | cons item items ih =>
    have ends : EndsHere (gapBytes item.gap ++ items.flatMap Item.bytes) := by
      cases items with
      | nil =>
        by_cases some : item.gap = []
        · simp [some,gapBytes,EndsHere]
        · exact gap_ends some _
      | cons next items => exact gap_ends (separated item (by simp)) _
    have later : ∀ item ∈ items.dropLast, item.gap ≠ [] := by
      intro other member
      cases items with
      | nil => cases member
      | cons next items => exact separated other (List.mem_cons_of_mem _ member)
    have lines : 1 + before.count 0x0a + item.text.count 0x0a + (gapBytes item.gap).count 0x0a =
        1 + (before ++ item.bytes).count 0x0a := by
      rw [Item.bytes,List.count_append,List.count_append]
      omega
    rw [List.flatMap_cons,Item.bytes,List.append_assoc,tokenizeFrom_spelling path item.spelled ends,
      tokenizeFrom_gap,lines,ih later,tokensAfter]
    simp

/-- Reading back what was written gives the tokens and their lines, and a text never fails as one that is not. -/
theorem tokenizer_round_trip :
    (∀ (path : List UInt8) (layout : Layout), tokenize path layout.source = .ok layout.tokens) ∧
      ∀ path source : List UInt8, Utf8.valid source → ∀ line,
        tokenize path source ≠ .error (.syntaxError path line (ascii "configuration values must be UTF-8")) := by
  constructor
  · intro path layout
    rw [tokenize,Layout.source,tokenizeFrom_gap,tokenizeFrom_items path layout.separated]
    rfl
  · intro path source text line
    exact tokenizeFrom_text path text 1 [] line

/-- A comment, a bare word, a quoted one with its quote and a newline in it, and a semicolon behind a comment. -/
def quotedLayout : Layout where
  before := [.comment (ascii " head") (by decide)]
  items := [⟨.word (ascii "root"),ascii "root",.bare _ (by decide) ⟨by decide +kernel,by decide +kernel⟩,[.blank 0x20 rfl]⟩,
    ⟨.word [0x27,0x0a,0xc3,0xa9],[0x27,0x5c,0x27,0x0a,0xc3,0xa9,0x27],.quoted [0x27,0x0a,0xc3,0xa9] (by decide) 0x27 rfl,
      [.newline,.comment (ascii "x;") (by decide)]⟩,
    ⟨.semicolon,[0x3b],.semicolon,[]⟩]
  separated := by decide

theorem tokenizer_round_trip_quoted : tokenize (ascii "nginx.conf") quotedLayout.source =
      .ok [⟨.word (ascii "root"),2⟩,⟨.word [0x27,0x0a,0xc3,0xa9],2⟩,⟨.semicolon,5⟩] ∧
    tokenize (ascii "nginx.conf") quotedLayout.source ≠
      .error (.syntaxError (ascii "nginx.conf") 2 (ascii "configuration values must be UTF-8")) :=
  ⟨tokenizer_round_trip.1 (ascii "nginx.conf") quotedLayout,tokenizer_round_trip.2 (ascii "nginx.conf") quotedLayout.source (by decide) 2⟩

end Layouts

end Polyguard.Nginx
