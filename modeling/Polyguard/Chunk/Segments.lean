import Polyguard.Chunk.Refinement

/-! The separator map of the segment parser.
`cut` is the first segment of an extension list: it ends at a semicolon that no
quoted value protects. The map records where the segments end before any of
them is looked at, so that its limit counts segments behind a fault too. -/
namespace Polyguard.ChunkSegments
open Ascii Slices ChunkGrammar ChunkRefinement

def isPlain (byte : UInt8) : Bool := byte != 0x3b

/-- The bytes up to the first semicolon, and those behind it. -/
def splitPlain (text : List UInt8) : List UInt8 × Option (List UInt8) :=
  (text.takeWhile isPlain,
    match text.dropWhile isPlain with
    | [] => none
    | _ :: rest => some rest)

/-- A valid name, an equals sign and a quote, and what follows them. -/
def opening (text : List UInt8) : Option (List UInt8 × List UInt8) :=
  let name := text.takeWhile isTchar
  let behind := text.dropWhile isTchar
  if withinName name.length ∧ behind.take 2 = [0x3d,0x22] then some (name,behind.drop 2) else none

/-- The first segment of an extension list, and the list behind its separator. -/
def cut (text : List UInt8) : List UInt8 × Option (List UInt8) :=
  match opening text with
  | none => splitPlain text
  | some (name,inside) =>
    match closeQuote inside with
    | none => (text,none)
    | some (raw,after) => (name ++ 0x3d :: 0x22 :: (raw ++ 0x22 :: (splitPlain after).1),(splitPlain after).2)

/-- The segments of an extension list, when there are at most `count`. -/
def cutAll : Nat → Option (List UInt8) → Option (List (List UInt8))
  | _,none => some []
  | 0,some _ => none
  | count + 1,some text => (cutAll count (cut text).2).map ((cut text).1 :: ·)

theorem splitPlain_join (text : List UInt8) : (splitPlain text).1 ++ joined (splitPlain text).2 = text := by
  have split := List.takeWhile_append_dropWhile (p := isPlain) (l := text)
  unfold splitPlain
  cases behind : text.dropWhile isPlain with
  | nil =>
    rw [behind] at split
    simpa [joined] using split
  | cons byte rest =>
    obtain rfl : byte = 0x3b := by simpa [isPlain] using dropWhile_stop behind
    rw [behind] at split
    simpa [joined] using split

theorem splitPlain_plain (text : List UInt8) : ∀ b ∈ (splitPlain text).1, b ≠ 0x3b := by
  intro b member
  have plain := List.all_eq_true.mp (List.all_takeWhile (p := isPlain) (l := text)) b member
  simpa [isPlain] using plain

theorem opening_eq_some {text name inside : List UInt8} :
    opening text = some (name,inside) ↔
      text = name ++ 0x3d :: 0x22 :: inside ∧ ChunkComposableSegments.validName name = true := by
  unfold opening ChunkComposableSegments.validName
  constructor
  · intro found
    simp only [Option.ite_none_right_eq_some,Option.some.injEq,Prod.mk.injEq] at found
    obtain ⟨⟨within,marks⟩,rfl,rfl⟩ := found
    have split := List.takeWhile_append_dropWhile (p := isTchar) (l := text)
    refine ⟨?_,by simp [within,List.all_takeWhile]⟩
    rw [← List.take_append_drop 2 (text.dropWhile isTchar),marks] at split
    exact split.symm
  · intro described
    obtain ⟨rfl,valid⟩ := described
    have tokens : name.all isTchar = true := by
      rw [Bool.and_eq_true] at valid
      exact valid.2
    have hits : ∀ b ∈ name, isTchar b := List.all_eq_true.mp tokens
    have halt : isTchar 0x3d = false := by decide
    rw [takeWhile_append_hit _ hits halt,dropWhile_append_hit _ hits halt]
    rw [Bool.and_eq_true] at valid
    simp [valid.1]

theorem cut_join (text : List UInt8) : (cut text).1 ++ joined (cut text).2 = text := by
  unfold cut
  cases opened : opening text with
  | none => exact splitPlain_join text
  | some parts =>
    obtain ⟨name,inside⟩ := parts
    obtain ⟨rfl,_⟩ := opening_eq_some.mp opened
    simp only
    rcases quote_cases inside with unclosed | ⟨raw,after,rfl,quotable⟩
    · rw [closeQuote_unclosed unclosed]
      simp [joined]
    · rw [closeQuote_closed quotable]
      have tail := splitPlain_join after
      simp only [List.append_assoc,List.cons_append,tail]

section Map
variable (line : List UInt8) (start : Nat) (separators : List Nat)

/-- The bytes of a segment read so far open a quoted value. -/
def Opens (seen : List UInt8) : Prop :=
  ∃ name, seen = name ++ [0x3d] ∧ ChunkComposableSegments.validName name = true

private theorem guard_iff {seen suffix : List UInt8} (located : line.drop start = seen ++ suffix) :
    (start < start + seen.length && (line.drop (start + seen.length - 1)).head? == some 0x3d &&
      ChunkComposableSegments.validName (slice line start (start + seen.length - 1))) = true ↔ Opens seen := by
  rcases seen.eq_nil_or_concat with rfl | ⟨name,last,rfl⟩
  · simp [Opens]
  · have back : start + (name.concat last).length - 1 = start + name.length := by simp
    have here : line.drop (start + name.length) = last :: suffix := by
      rw [← List.drop_drop,located]
      simp
    have front : slice line start (start + name.length) = name := by
      have split : line.drop start = name ++ (last :: suffix) := by simpa using located
      have within := slice_within split 0 name.length (Nat.le_refl _)
      rwa [Nat.add_zero,slice_zero,List.take_length] at within
    rw [back,here,front]
    simp only [Opens,List.concat_eq_append]
    constructor
    · intro guarded
      simp at guarded
      exact ⟨name,by rw [guarded.1],guarded.2⟩
    · intro opens
      obtain ⟨other,same,valid⟩ := opens
      obtain ⟨rfl,rfl⟩ : name = other ∧ last = 0x3d := by simpa using same
      simp [valid]

theorem map_plain (part suffix seen : List UInt8) (located : line.drop start = seen ++ (part ++ suffix))
    (plain : ∀ b ∈ part, b ≠ 0x3b) (shut : ∀ before after, part = before ++ 0x22 :: after → ¬ Opens (seen ++ before)) :
    ChunkComposableSegments.mapFrom line (start + seen.length) start false false separators (part ++ suffix) =
      ChunkComposableSegments.mapFrom line (start + seen.length + part.length) start false false separators suffix := by
  induction part generalizing seen with
  | nil => rfl
  | cons byte part ih =>
    have moved : line.drop start = (seen ++ [byte]) ++ (part ++ suffix) := by simpa using located
    have later := ih (seen ++ [byte]) moved (fun b member => plain b (by simp [member])) (by
      intro before after same opens
      exact shut (byte :: before) after (by rw [same]; rfl) (by simpa using opens))
    have width : start + (seen ++ [byte]).length = start + seen.length + 1 := by simp; omega
    have total : start + seen.length + 1 + part.length = start + seen.length + (byte :: part).length := by
      simp; omega
    rw [width,total] at later
    rw [List.cons_append,ChunkComposableSegments.mapFrom,if_neg (by decide)]
    have unopened : ¬ (byte == 0x22 && start < start + seen.length &&
        (line.drop (start + seen.length - 1)).head? == some 0x3d &&
        ChunkComposableSegments.validName (slice line start (start + seen.length - 1))) = true := by
      intro held
      rw [Bool.and_assoc,Bool.and_assoc,Bool.and_eq_true,← Bool.and_assoc] at held
      obtain ⟨quote,guarded⟩ := held
      obtain rfl : byte = 0x22 := by simpa using quote
      refine shut [] part rfl ?_
      rw [List.append_nil]
      exact (guard_iff line start located).mp guarded
    rw [if_neg unopened,if_pos (by simpa using plain byte (by simp)),later]

theorem map_closed {raw : List UInt8} (quotable : Quotable raw) (after : List UInt8) (offset : Nat) :
    ChunkComposableSegments.mapFrom line offset start true false separators (raw ++ 0x22 :: after) =
      ChunkComposableSegments.mapFrom line (offset + raw.length + 1) start false false separators after := by
  induction quotable generalizing offset with
  | nil =>
    rw [List.nil_append,ChunkComposableSegments.mapFrom]
    rfl
  | @plain byte raw notQuote notEscape quotable ih =>
    rw [List.cons_append,ChunkComposableSegments.mapFrom,if_pos rfl,if_neg (by decide),
      if_neg (by simpa using notEscape),if_neg (by simpa using notQuote),ih,List.length_cons,
      show offset + 1 + raw.length = offset + (raw.length + 1) by omega]
  | @pair byte raw quotable ih =>
    rw [List.cons_append,List.cons_append,ChunkComposableSegments.mapFrom,if_pos rfl,if_neg (by decide),
      if_pos (by decide),ChunkComposableSegments.mapFrom,if_pos rfl,if_pos rfl,ih,List.length_cons,List.length_cons,
      show offset + 1 + 1 + raw.length = offset + (raw.length + 1 + 1) by omega]

theorem map_unclosed {bytes : List UInt8} (unclosed : Unclosed bytes) (offset : Nat) :
    ChunkComposableSegments.mapFrom line offset start true false separators bytes = .ok separators := by
  induction unclosed generalizing offset with
  | nil => rfl
  | dangling => rfl
  | @plain byte bytes notQuote notEscape unclosed ih =>
    rw [ChunkComposableSegments.mapFrom,if_pos rfl,if_neg (by decide),if_neg (by simpa using notEscape),
      if_neg (by simpa using notQuote),ih]
  | @pair byte bytes unclosed ih =>
    rw [ChunkComposableSegments.mapFrom,if_pos rfl,if_neg (by decide),if_pos (by decide),
      ChunkComposableSegments.mapFrom,if_pos rfl,if_pos rfl,ih]

theorem map_joined (rest : Option (List UInt8)) (offset : Nat) :
    ChunkComposableSegments.mapFrom line offset start false false separators (joined rest) =
      match rest with
      | none => .ok separators
      | some text =>
        if separators.length = chunkExtensions then extensionLimit (chunkExtensions + 1)
        else ChunkComposableSegments.mapFrom line (offset + 1) (offset + 1) false false (separators ++ [offset]) text := by
  cases rest with
  | none => rfl
  | some text =>
    rw [joined,ChunkComposableSegments.mapFrom]
    simp

theorem map_segment (text : List UInt8) (located : line.drop start = text) :
    ChunkComposableSegments.mapFrom line start start false false separators text =
      ChunkComposableSegments.mapFrom line (start + (cut text).1.length) start false false separators
        (joined (cut text).2) := by
  have none_seen : line.drop start = [] ++ text := located
  unfold cut
  cases opened : opening text with
  | none =>
    have split := splitPlain_join text
    have ran := map_plain line start separators (splitPlain text).1 (joined (splitPlain text).2) []
      (by rw [split]; exact none_seen) (splitPlain_plain text) (by
        intro before after same opens
        obtain ⟨name,front,valid⟩ := opens
        have whole : text = name ++ 0x3d :: 0x22 :: (after ++ joined (splitPlain text).2) := by
          rw [← split]
          conv_lhs => rw [same]
          rw [List.nil_append] at front
          rw [front,split]
          simp
        rw [opening_eq_some.mpr ⟨whole,valid⟩] at opened
        cases opened)
    rw [split] at ran
    simpa using ran
  | some parts =>
    obtain ⟨name,inside⟩ := parts
    obtain ⟨rfl,valid⟩ := opening_eq_some.mp opened
    have tokens : ∀ b ∈ name, isTchar b := by
      unfold ChunkComposableSegments.validName at valid
      rw [Bool.and_eq_true] at valid
      exact List.all_eq_true.mp valid.2
    have plainName : ∀ mark, isTchar mark = false → mark ∉ name := by
      intro mark other member
      rw [tokens mark member] at other
      cases other
    have front : ChunkComposableSegments.mapFrom line start start false false separators
        (name ++ 0x3d :: 0x22 :: inside) =
        ChunkComposableSegments.mapFrom line (start + name.length + 2) start true false separators inside := by
      have named := map_plain line start separators (name ++ [0x3d]) (0x22 :: inside) []
        (by simpa using located) (by
          intro b member
          rintro rfl
          simp only [List.mem_append,List.mem_singleton] at member
          rcases member with member | equal
          · exact plainName 0x3b (by decide) member
          · exact absurd equal (by decide)) (by
          intro before after same
          exfalso
          have member : 0x22 ∈ name ++ [0x3d] := by simp [same]
          simp only [List.mem_append,List.mem_singleton] at member
          rcases member with member | equal
          · exact plainName 0x22 (by decide) member
          · exact absurd equal (by decide))
      have placed : line.drop start = (name ++ [0x3d]) ++ (0x22 :: inside) := by simpa using located
      have guarded := (guard_iff line start placed).mpr ⟨name,rfl,valid⟩
      simp only [List.length_nil,Nat.add_zero,List.append_assoc,List.singleton_append] at named
      rw [named,ChunkComposableSegments.mapFrom,if_neg (by decide)]
      rw [if_pos (by rw [Bool.and_assoc,Bool.and_assoc,← Bool.and_assoc (decide _),guarded]; rfl)]
      simp [Nat.add_assoc]
    simp only
    rcases quote_cases inside with unclosed | ⟨raw,after,rfl,quotable⟩
    · rw [closeQuote_unclosed unclosed,front,map_unclosed line start separators unclosed]
      rfl
    · rw [closeQuote_closed quotable,front,map_closed line start separators quotable]
      have split := splitPlain_join after
      have ran := map_plain line start separators (splitPlain after).1 (joined (splitPlain after).2)
        (name ++ 0x3d :: 0x22 :: (raw ++ [0x22])) (by rw [located,split]; simp) (splitPlain_plain after) (by
          intro before later same opens
          obtain ⟨other,whole,sound⟩ := opens
          have member : 0x3d ∈ other := by
            have trimmed := congrArg List.dropLast whole
            rw [List.dropLast_concat] at trimmed
            rw [← trimmed]
            simp [List.dropLast_append_of_ne_nil]
          unfold ChunkComposableSegments.validName at sound
          rw [Bool.and_eq_true] at sound
          exact absurd (List.all_eq_true.mp sound.2 0x3d member) (by decide))
      rw [split] at ran
      have width : start + (name ++ 0x3d :: 0x22 :: (raw ++ [0x22])).length =
          start + name.length + 2 + raw.length + 1 := by
        simp
        omega
      have total : start + name.length + 2 + raw.length + 1 + (splitPlain after).1.length =
          start + (name ++ 0x3d :: 0x22 :: (raw ++ 0x22 :: (splitPlain after).1)).length := by
        simp
        omega
      rw [width,total] at ran
      exact ran

end Map

section Transform

private theorem unquote_closed {raw : List UInt8} (quotable : Quotable raw) (after decoded : List UInt8) :
    ChunkComposableSegments.unquoteFrom decoded (raw ++ 0x22 :: after) =
      if after.isEmpty then quotedText (decoded ++ unescape raw) else invalidChunk "invalid_extension_value" := by
  induction quotable generalizing decoded with
  | nil =>
    conv_lhs => unfold ChunkComposableSegments.unquoteFrom
    simp [unescape]
  | plain notQuote notEscape _ ih =>
    rw [List.cons_append]
    conv_lhs => unfold ChunkComposableSegments.unquoteFrom
    simp [notQuote,notEscape,ih]
  | pair _ ih =>
    rw [List.cons_append,List.cons_append]
    conv_lhs => unfold ChunkComposableSegments.unquoteFrom
    simp [ih]

private theorem unquote_unclosed {bytes : List UInt8} (unclosed : Unclosed bytes) (decoded : List UInt8) :
    ChunkComposableSegments.unquoteFrom decoded bytes = invalidChunk "invalid_quoted_string" := by
  induction unclosed generalizing decoded with
  | nil => rfl
  | dangling => rfl
  | plain notQuote notEscape _ ih =>
    conv_lhs => unfold ChunkComposableSegments.unquoteFrom
    simp [notQuote,notEscape,ih]
  | pair _ ih =>
    conv_lhs => unfold ChunkComposableSegments.unquoteFrom
    simp [ih]

private theorem splitPlain_empty (after : List UInt8) :
    (splitPlain after).1.isEmpty = (following after).isSome := by
  cases after with
  | nil => rfl
  | cons byte rest =>
    by_cases semicolon : byte = 0x3b <;> simp [splitPlain,isPlain,following,semicolon]

private theorem splitPlain_following {after : List UInt8} {rest : Option (List UInt8)}
    (found : following after = some rest) : splitPlain after = ([],rest) := by
  rw [following_eq_some.mp found]
  cases rest with
  | none => rfl
  | some text => simp [joined,splitPlain,isPlain]

private theorem token_plain (byte : UInt8) (token : isTchar byte) : isPlain byte := by
  revert token
  exact forall_byte (p := fun b => isTchar b → isPlain b) (by decide) byte

private theorem transform_value (body : List UInt8) (unquoted : body.head? ≠ some 0x22) :
    ChunkComposableSegments.transformValue (splitPlain body).1 =
      answered "invalid_extension_value" (fun parts => parts.1.denote) (readToken body) := by
  have split := List.takeWhile_append_dropWhile (p := isTchar) (l := body)
  have prefixed : (splitPlain body).1 = body.takeWhile isTchar ++ (splitPlain (body.dropWhile isTchar)).1 := by
    have tokens : ∀ b ∈ body.takeWhile isTchar, isPlain b := fun b member =>
      token_plain b (List.all_eq_true.mp List.all_takeWhile b member)
    unfold splitPlain
    simp only
    conv_lhs => rw [← split]
    rw [List.takeWhile_append_of_pos tokens]
  have bare : (splitPlain body).1.head? ≠ some 0x22 := by
    cases body with
    | nil => simp [splitPlain]
    | cons byte bytes =>
      by_cases plain : isPlain byte = true
      · simp only [splitPlain,List.takeWhile_cons,plain,if_true,List.head?_cons]
        simpa using unquoted
      · simp [splitPlain,plain]
  unfold ChunkComposableSegments.transformValue readToken
  rw [if_neg (by simpa using bare),prefixed]
  by_cases empty : body.takeWhile isTchar = []
  · have failing : ((splitPlain (body.dropWhile isTchar)).1.isEmpty ||
        !(splitPlain (body.dropWhile isTchar)).1.all isTchar) = true := by
      cases behind : body.dropWhile isTchar with
      | nil => rfl
      | cons byte bytes =>
        have stop : isTchar byte = false := dropWhile_stop behind
        by_cases plain : isPlain byte = true <;> simp [splitPlain,plain,stop]
    rw [empty,List.nil_append,if_pos failing]
    rfl
  · rw [if_neg empty]
    cases found : following (body.dropWhile isTchar) with
    | some rest =>
      rw [splitPlain_following found]
      have tokens := List.all_takeWhile (p := isTchar) (l := body)
      simp only [List.append_nil,tokens]
      rw [if_neg (by simpa using empty)]
      rfl
    | none =>
      have failing : (body.takeWhile isTchar ++ (splitPlain (body.dropWhile isTchar)).1).all isTchar = false := by
        cases behind : body.dropWhile isTchar with
        | nil =>
          rw [behind] at found
          cases found
        | cons byte bytes =>
          have stop : isTchar byte = false := dropWhile_stop behind
          have plain : isPlain byte = true := by
            by_contra semicolon
            rw [behind] at found
            simp [isPlain] at semicolon
            simp [following,semicolon] at found
          simp [splitPlain,plain,stop]
      rw [failing,if_pos (by simp)]
      rfl

/-- What the transform makes of the part of a segment behind its name. -/
private theorem transform_named {name : List UInt8} (tokens : name.all isTchar) (part : List UInt8) :
    ChunkComposableSegments.transformExtension (name ++ 0x3d :: part) =
      if !withinName name.length then invalidChunk "invalid_extension_name"
      else ChunkComposableSegments.transformValue part >>= fun value =>
        .ok ⟨name.map toAsciiLowercase,some value⟩ := by
  have absent : ∀ b ∈ name, (b == 0x3d) = false := by
    intro b member
    rw [beq_eq_false_iff_ne]
    rintro rfl
    exact absurd (List.all_eq_true.mp tokens 0x3d member) (by decide)
  unfold ChunkComposableSegments.transformExtension ChunkComposableSegments.validName
  rw [position_append part absent (by rfl)]
  simp only [Option.map_some,Option.getD_some,take_hit,drop_hit,name_chars tokens,tokens,Bool.and_true]

private theorem transform_bare {name : List UInt8} (tokens : name.all isTchar) :
    ChunkComposableSegments.transformExtension name =
      if !withinName name.length then invalidChunk "invalid_extension_name"
      else .ok ⟨name.map toAsciiLowercase,none⟩ := by
  have absent : ∀ b ∈ name, (b == 0x3d) = false := by
    intro b member
    rw [beq_eq_false_iff_ne]
    rintro rfl
    exact absurd (List.all_eq_true.mp tokens 0x3d member) (by decide)
  unfold ChunkComposableSegments.transformExtension ChunkComposableSegments.validName
  rw [position_none absent]
  simp only [Option.map_none,Option.getD_none,name_chars tokens,tokens,Bool.and_true]

/-- A segment whose name runs into some other byte. -/
private theorem transform_broken (name part : List UInt8) (byte : UInt8) (other : isTchar byte = false)
    (unequal : byte ≠ 0x3d) (tokens : name.all isTchar) :
    ChunkComposableSegments.transformExtension (name ++ byte :: part) = invalidChunk "invalid_extension_name" := by
  have absent : ∀ b ∈ name, (b == 0x3d) = false := by
    intro b member
    rw [beq_eq_false_iff_ne]
    rintro rfl
    exact absurd (List.all_eq_true.mp tokens 0x3d member) (by decide)
  have broken (rest : List UInt8) : (name ++ byte :: rest).all isTchar = false := by simp [other]
  unfold ChunkComposableSegments.transformExtension ChunkComposableSegments.validName
  rcases first_hit (· == (0x3d : UInt8)) part with miss | ⟨before,hit,after,rfl,miss,found⟩
  · have searched : position (· == 0x3d) (name ++ byte :: part) = none := by
      apply position_none
      intro b member
      rcases List.mem_append.mp member with inside | inside
      · exact absent b inside
      · rcases List.mem_cons.mp inside with rfl | inside
        · simpa using unequal
        · exact miss b inside
    rw [searched]
    simp only [Option.map_none,Option.getD_none,broken,Bool.and_false,Bool.not_false,if_true]
  · have split : name ++ byte :: (before ++ hit :: after) = (name ++ byte :: before) ++ hit :: after := by simp
    have missed : ∀ b ∈ name ++ byte :: before, (b == 0x3d) = false := by
      intro b member
      rcases List.mem_append.mp member with inside | inside
      · exact absent b inside
      · rcases List.mem_cons.mp inside with rfl | inside
        · simpa using unequal
        · exact miss b inside
    rw [split,position_append after missed found]
    simp only [Option.map_some,Option.getD_some,take_hit,broken,Bool.and_false,Bool.not_false,if_true]

private theorem splitPlain_named (text : List UInt8) :
    splitPlain text = (text.takeWhile isTchar ++ (splitPlain (text.dropWhile isTchar)).1,
      (splitPlain (text.dropWhile isTchar)).2) := by
  have split := List.takeWhile_append_dropWhile (p := isTchar) (l := text)
  have tokens : ∀ b ∈ text.takeWhile isTchar, isPlain b := fun b member =>
    token_plain b (List.all_eq_true.mp List.all_takeWhile b member)
  unfold splitPlain
  simp only
  conv_lhs => rw [← split]
  rw [List.takeWhile_append_of_pos tokens,List.dropWhile_append_of_pos tokens]

private theorem splitPlain_cons {byte : UInt8} (plain : byte ≠ 0x3b) (bytes : List UInt8) :
    splitPlain (byte :: bytes) = (byte :: (splitPlain bytes).1,(splitPlain bytes).2) := by
  have kept : isPlain byte = true := by simpa [isPlain] using plain
  simp [splitPlain,kept]

private theorem cut_unopened {text : List UInt8}
    (unopened : ¬ (withinName (text.takeWhile isTchar).length ∧ (text.dropWhile isTchar).take 2 = [0x3d,0x22])) :
    cut text = (text.takeWhile isTchar ++ (splitPlain (text.dropWhile isTchar)).1,
      (splitPlain (text.dropWhile isTchar)).2) := by
  rw [cut,opening]
  simp only [unopened,if_false]
  exact splitPlain_named text

private theorem cut_opened {text inside : List UInt8} (within : withinName (text.takeWhile isTchar).length)
    (behind : text.dropWhile isTchar = 0x3d :: 0x22 :: inside) :
    cut text = match closeQuote inside with
      | none => (text.takeWhile isTchar ++ 0x3d :: 0x22 :: inside,none)
      | some (raw,after) => (text.takeWhile isTchar ++ 0x3d :: 0x22 :: (raw ++ 0x22 :: (splitPlain after).1),
        (splitPlain after).2) := by
  have split := List.takeWhile_append_dropWhile (p := isTchar) (l := text)
  rw [behind] at split
  rw [split,cut,opening]
  simp [within,behind]

/-- The transform of the first segment reports what reading the first extension does. -/
theorem transform_cut (text : List UInt8) :
    ChunkComposableSegments.transformExtension (cut text).1 =
      answered "invalid_extension_value" (fun parts => parts.1.denote) (readExtension text) := by
  have tokens := List.all_takeWhile (p := isTchar) (l := text)
  rw [readExtension]
  simp only
  cases behind : text.dropWhile isTchar with
  | nil =>
    rw [cut_unopened (by simp [behind]),behind]
    have bare := transform_bare tokens
    simp only [splitPlain,List.takeWhile_nil,List.append_nil]
    rw [bare]
    cases withinName (text.takeWhile isTchar).length <;> rfl
  | cons byte body =>
    have stop : isTchar byte = false := dropWhile_stop behind
    by_cases semicolon : byte = 0x3b
    · subst semicolon
      rw [cut_unopened (by simp [behind]),behind]
      have bare := transform_bare tokens
      have front : (splitPlain (0x3b :: body)).1 = [] := by simp [splitPlain,isPlain]
      simp only [front,List.append_nil]
      rw [bare]
      cases withinName (text.takeWhile isTchar).length <;> rfl
    · by_cases equals : byte = 0x3d
      · subst equals
        cases within : withinName (text.takeWhile isTchar).length with
        | false =>
          rw [cut_unopened (by simp [within]),behind,splitPlain_cons semicolon,transform_named tokens,within]
          rfl
        | true =>
          have assembled (part : List UInt8) (read : Except Fault (Value × Option (List UInt8)))
              (value : ChunkComposableSegments.transformValue part =
                answered "invalid_extension_value" (fun parts : Value × Option (List UInt8) => parts.1.denote) read) :
              ChunkComposableSegments.transformExtension (text.takeWhile isTchar ++ 0x3d :: part) =
                answered "invalid_extension_value" (fun parts : Extension × Option (List UInt8) => parts.1.denote)
                  (read >>= fun parts => .ok (⟨text.takeWhile isTchar,some parts.1⟩,parts.2)) := by
            rw [transform_named tokens,within,value]
            cases read <;> rfl
          by_cases quote : body.head? = some 0x22
          · obtain ⟨inside,rfl⟩ := List.head?_eq_some_iff.mp quote
            have body_read : readBody (0x22 :: inside) = readQuoted inside := by simp [readBody]
            rw [cut_opened within behind]
            simp only [body_read]
            rcases quote_cases inside with unclosed | ⟨raw,after,rfl,quotable⟩
            · rw [closeQuote_unclosed unclosed]
              apply assembled
              rw [readQuoted_unclosed unclosed]
              simp [ChunkComposableSegments.transformValue,unquote_unclosed unclosed]
              rfl
            · rw [closeQuote_closed quotable]
              apply assembled
              rw [readQuoted_closed quotable,readClosed]
              simp only [ChunkComposableSegments.transformValue,List.head?_cons,beq_self_eq_true,if_true,
                List.drop_one,List.tail_cons,unquote_closed quotable,splitPlain_empty,List.nil_append,quotedText,
                Utf8.fromUtf8]
              cases following after <;> cases Utf8.valid (unescape raw) <;> rfl
          · have unopened : ¬ (withinName (text.takeWhile isTchar).length ∧
                (text.dropWhile isTchar).take 2 = [0x3d,0x22]) := by
              rintro ⟨_,marks⟩
              rw [behind] at marks
              cases body with
              | nil => simp at marks
              | cons first bytes =>
                obtain rfl : first = 0x22 := by simpa using marks
                exact quote rfl
            have body_read : readBody body = readToken body := by simp [readBody,quote]
            rw [cut_unopened unopened,behind,splitPlain_cons semicolon]
            simp only [body_read]
            exact assembled _ _ (transform_value body quote)
      · have unopened : ¬ (withinName (text.takeWhile isTchar).length ∧
            (text.dropWhile isTchar).take 2 = [0x3d,0x22]) := by
          rintro ⟨_,marks⟩
          rw [behind] at marks
          cases body <;> simp [equals] at marks
        rw [cut_unopened unopened,behind,splitPlain_cons semicolon,transform_broken _ _ byte stop equals tokens]
        simp only [semicolon,equals,if_false]
        cases withinName (text.takeWhile isTchar).length <;> rfl

theorem cut_read {text : List UInt8} {extension : Extension} {rest : Option (List UInt8)}
    (read : readExtension text = .ok (extension,rest)) : (cut text).2 = rest := by
  obtain ⟨⟨within,tokens,valued⟩,rfl⟩ := (readExtension_ok_iff text extension rest).mp read
  obtain ⟨name,value⟩ := extension
  have ends : splitPlain (joined rest) = ([],rest) := splitPlain_following (following_eq_some.mpr rfl)
  cases value with
  | none =>
    have whole : Extension.text ⟨name,none⟩ ++ joined rest = name ++ joined rest := by simp [Extension.text]
    obtain ⟨_,dropped⟩ := token_split tokens (joined_stop rest)
    rw [whole,cut_unopened (by rw [dropped]; cases rest <;> simp [joined]),dropped,ends]
  | some value =>
    have sound := valued value rfl
    cases value with
    | token bytes =>
      obtain ⟨⟨filled,characters⟩,_⟩ := sound
      have whole : Extension.text ⟨name,some (.token bytes)⟩ ++ joined rest = name ++ 0x3d :: (bytes ++ joined rest) := by
        simp [Extension.text,Value.text]
      have stop : ∀ b ∈ (0x3d :: (bytes ++ joined rest)).head?, isTchar b = false := by
        intro b member
        obtain rfl : 0x3d = b := by simpa using member
        decide
      obtain ⟨_,dropped⟩ := token_split tokens stop
      obtain ⟨_,behind⟩ := token_split characters (joined_stop rest)
      obtain ⟨first,later,rfl⟩ := List.exists_cons_of_ne_nil filled
      have unquoted : first ≠ 0x22 := by
        rintro rfl
        exact absurd (List.all_eq_true.mp characters 0x22 (by simp)) (by decide)
      rw [whole,cut_unopened (by rw [dropped]; simp [unquoted]),dropped,splitPlain_cons (by decide),
        splitPlain_named,behind,ends]
    | quoted raw =>
      have whole : Extension.text ⟨name,some (.quoted raw)⟩ ++ joined rest =
          name ++ 0x3d :: 0x22 :: (raw ++ 0x22 :: joined rest) := by
        simp [Extension.text,Value.text]
      have valid : ChunkComposableSegments.validName name = true := by
        simp only [ChunkComposableSegments.validName,Bool.and_eq_true]
        exact ⟨within,tokens⟩
      rw [whole,cut,opening_eq_some.mpr ⟨rfl,valid⟩]
      simp only [closeQuote_closed sound.1,ends]

end Transform

/-- The separators in front of segments, the first of them at `offset`. -/
def places (offset : Nat) : List (List UInt8) → List Nat
  | [] => []
  | segment :: segments => offset :: places (offset + 1 + segment.length) segments

/-- Segments as they stand in the line, each behind its separator. -/
def glued (segments : List (List UInt8)) : List UInt8 := segments.flatMap (0x3b :: ·)

theorem cutAll_glued (count : Nat) (rest : Option (List UInt8)) (segments : List (List UInt8))
    (cuts : cutAll count rest = some segments) : joined rest = glued segments := by
  induction count generalizing rest segments with
  | zero =>
    cases rest with
    | none =>
      cases cuts
      rfl
    | some text => cases cuts
  | succ count ih =>
    cases rest with
    | none =>
      cases cuts
      rfl
    | some text =>
      obtain ⟨others,later,rfl⟩ := Option.map_eq_some_iff.mp cuts
      have join := cut_join text
      rw [ih _ _ later] at join
      exact congrArg (0x3b :: ·) join.symm

theorem map_list (line : List UInt8) (count start : Nat) (separators : List Nat) (text : List UInt8)
    (located : line.drop start = text) (room : separators.length + count = chunkExtensions) :
    ChunkComposableSegments.mapFrom line start start false false separators text =
      match cutAll count (cut text).2 with
      | none => extensionLimit (chunkExtensions + 1)
      | some segments => .ok (separators ++ places (start + (cut text).1.length) segments) := by
  induction count generalizing start separators text with
  | zero =>
    rw [map_segment line start separators text located,map_joined]
    cases rest : (cut text).2 with
    | none => simp [cutAll,places]
    | some next =>
      simp only [cutAll]
      rw [if_pos (by omega)]
  | succ count ih =>
    rw [map_segment line start separators text located,map_joined]
    cases rest : (cut text).2 with
    | none => simp [cutAll,places]
    | some next =>
      have join := cut_join text
      rw [rest,joined] at join
      have moved : line.drop (start + (cut text).1.length + 1) = next := by
        have cutting := congrArg (List.drop ((cut text).1.length + 1)) join
        rw [drop_hit] at cutting
        rw [Nat.add_assoc,← List.drop_drop,located,← cutting]
      have later := ih (start + (cut text).1.length + 1) (separators ++ [start + (cut text).1.length]) next moved
        (by simp; omega)
      simp only [cutAll]
      rw [if_neg (by omega),later]
      cases cutAll count (cut next).2 with
      | none => rfl
      | some segments => simp [places]

/-- The segments transformed in order. -/
def transformAll : List (List UInt8) → Result (List ChunkExtension)
  | [] => .ok []
  | segment :: segments => do
    let extension ← ChunkComposableSegments.transformExtension segment
    let extensions ← transformAll segments
    .ok (extension :: extensions)

theorem transform_places (line : List UInt8) (offset : Nat) (segments : List (List UInt8))
    (located : line.drop offset = glued segments) :
    ChunkComposableSegments.transformExtensions line (places offset segments) = transformAll segments := by
  induction segments generalizing offset with
  | nil => rfl
  | cons segment segments ih =>
    have behind : line.drop (offset + 1) = segment ++ glued segments := by
      rw [← List.drop_drop,located]
      simp [glued]
    have next : line.drop (offset + 1 + segment.length) = glued segments := by
      rw [← List.drop_drop,behind,List.drop_left]
    have part : slice line (offset + 1) ((places (offset + 1 + segment.length) segments).head?.getD line.length) =
        segment := by
      have within := slice_within behind 0 segment.length (Nat.le_refl _)
      rw [Nat.add_zero,slice_zero,List.take_length] at within
      cases segments with
      | nil =>
        have total := congrArg List.length behind
        simp only [List.length_drop,List.length_append,glued,List.flatMap_nil,List.length_nil] at total
        by_cases empty : segment.length = 0
        · obtain rfl := List.length_eq_zero_iff.mp empty
          have past : line.length ≤ offset + 1 := by simp at total; omega
          simp only [places,List.head?_nil,Option.getD_none,slice,List.take_length]
          exact List.drop_eq_nil_of_le past
        · have length : line.length = offset + 1 + segment.length := by omega
          simpa [places,length] using within
      | cons other segments => simpa [places] using within
    rw [places,ChunkComposableSegments.transformExtensions,part,ih _ next,transformAll]

theorem transform_list (count : Nat) (rest : Option (List UInt8)) (segments : List (List UInt8))
    (cuts : cutAll count rest = some segments) :
    transformAll segments = listed "invalid_extension_value" (readAll count rest) := by
  induction count generalizing rest segments with
  | zero =>
    cases rest with
    | none =>
      cases cuts
      rfl
    | some text => cases cuts
  | succ count ih =>
    cases rest with
    | none =>
      cases cuts
      rfl
    | some text =>
      obtain ⟨others,later,rfl⟩ := Option.map_eq_some_iff.mp cuts
      rw [transformAll,transform_cut,readAll]
      cases read : readExtension text with
      | error fault => rfl
      | ok parts =>
        obtain ⟨extension,rest⟩ := parts
        rw [cut_read read] at later
        rw [ih rest others later]
        simp only [answered,bind_ok,listed_cons]

theorem cutAll_ending (count : Nat) (rest : Option (List UInt8)) :
    ((readAll count rest).2 = .overflow → cutAll count rest = none) ∧
      ((readAll count rest).2 = .done → cutAll count rest ≠ none) := by
  induction count generalizing rest with
  | zero => cases rest <;> simp [readAll,cutAll]
  | succ count ih =>
    cases rest with
    | none => simp [readAll,cutAll]
    | some text =>
      rw [readAll,cutAll]
      cases read : readExtension text with
      | error fault => simp
      | ok parts =>
        obtain ⟨extension,rest⟩ := parts
        rw [cut_read read]
        simpa using ih rest

/-- The segment parser's answer: too many segments come before any fault. -/
def segmented (rest : Option (List UInt8)) : Result (List ChunkExtension) :=
  match cutAll chunkExtensions rest with
  | none => extensionLimit (chunkExtensions + 1)
  | some _ => listed "invalid_extension_value" (readAll chunkExtensions rest)

theorem segments_list (line : List UInt8) (rest : Option (List UInt8)) (first : Option Nat)
    (started : first.isSome = rest.isSome) (located : line.drop (first.getD line.length) = joined rest) :
    (ChunkComposableSegments.mapExtensionSeparators line first >>= fun separators =>
      ChunkComposableSegments.transformExtensions line separators) = segmented rest := by
  cases first with
  | none =>
    cases rest with
    | none => rfl
    | some text => cases started
  | some first =>
    cases rest with
    | none => cases started
    | some text =>
      have behind : line.drop (first + 1) = text := by
        rw [← List.drop_drop]
        simp only [Option.getD_some] at located
        rw [located]
        rfl
      have mapped := map_list line 15 (first + 1) [first] text behind rfl
      rw [ChunkComposableSegments.mapExtensionSeparators]
      simp only [behind]
      rw [mapped,segmented,show chunkExtensions = 15 + 1 from rfl,cutAll]
      cases cuts : cutAll 15 (cut text).2 with
      | none => rfl
      | some segments =>
        have whole : cutAll (15 + 1) (some text) = some ((cut text).1 :: segments) := by rw [cutAll,cuts]; rfl
        have located : line.drop first = glued ((cut text).1 :: segments) := by
          rw [← cutAll_glued _ _ _ whole]
          exact located
        have ran := transform_places line first _ located
        simp only [Option.map_some,bind_ok,List.singleton_append]
        rw [← transform_list _ _ _ whole,← ran]
        rfl

end Polyguard.ChunkSegments
