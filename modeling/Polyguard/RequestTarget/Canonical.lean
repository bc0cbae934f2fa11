import Polyguard.Bytes.DotSegments
import Polyguard.RequestTarget.Routed

/-! The canonical form of a normalized target.
The routing path is the path with its escapes normalized and its dot segments removed as
RFC 3986 says, and the path and query reads back as itself. One implementation writes no
slash behind a final pair of dots that follows an empty segment, and only there fails to. -/
namespace Polyguard.RequestTargetAgreement
open Ascii Slices TargetBytes RequestTarget RequestLineAgreement

section Spellings

/-- The text with every escape of an unreserved byte decoded, and the digits of the others in upper case. -/
def normalizeEscapes : List UInt8 → List UInt8
  | 0x25 :: high :: low :: rest =>
    match TargetBytes.hexValue high,TargetBytes.hexValue low with
    | some first,some second =>
      (if isUnreserved (joinNibbles first second) then [joinNibbles first second]
        else [0x25,toAsciiUppercase high,toAsciiUppercase low]) ++ normalizeEscapes rest
    | _,_ => 0x25 :: normalizeEscapes (high :: low :: rest)
  | byte :: rest => byte :: normalizeEscapes rest
  | [] => []

def isUpperHexdigit (byte : UInt8) : Bool := isAsciiHexdigit byte && !isAsciiLowercase byte

/-- Every percent sign starts an escape in upper case of a byte that is not unreserved. -/
def tightEscapes : List UInt8 → Bool
  | 0x25 :: high :: low :: rest =>
    isUpperHexdigit high && isUpperHexdigit low &&
      !isUnreserved (joinNibbles ((TargetBytes.hexValue high).getD 0) ((TargetBytes.hexValue low).getD 0)) && tightEscapes rest
  | 0x25 :: _ => false
  | _ :: rest => tightEscapes rest
  | [] => true

/-- The token that a spelling of the token is read as. -/
def respell : Token → Token
  | .literal byte => .literal byte
  | .encoded byte => if isUnreserved byte then .literal byte else .encoded byte

/-- A token that can be read: no plain percent sign, and no byte that may not be hidden. -/
def Spoken (path : Bool) : Token → Prop
  | .literal byte => byte ≠ 0x25
  | .encoded byte => (path && (byte == 0x2f || byte == 0x5c)) = false ∧ (decide (byte ≤ 31) || byte == 127) = false

theorem nibbles_small {digit value : UInt8} (read : TargetBytes.hexValue digit = some value) :
    ∃ small : Fin 16, value = UInt8.ofNat small.val ∧ TargetBytes.hexDigit value = toAsciiUppercase digit := by
  have table := forall_byte (p := fun byte => ((TargetBytes.hexValue byte).all fun found =>
    decide (found.toNat < 16) && TargetBytes.hexDigit found == toAsciiUppercase byte) = true) (by decide) digit
  rw [read,Option.all_some,Bool.and_eq_true,decide_eq_true_eq,beq_iff_eq] at table
  exact ⟨⟨value.toNat,table.1⟩,UInt8.ofNat_toNat.symm,table.2⟩

theorem joinNibbles_split (first second : Fin 16) :
    joinNibbles (UInt8.ofNat first.val) (UInt8.ofNat second.val) >>> 4 = UInt8.ofNat first.val ∧
      joinNibbles (UInt8.ofNat first.val) (UInt8.ofNat second.val) &&& 0x0f = UInt8.ofNat second.val := by
  revert first second
  decide

theorem spell_upper {high low first second : UInt8} (left : TargetBytes.hexValue high = some first)
    (right : TargetBytes.hexValue low = some second) : spell (.encoded (joinNibbles first second)) =
      if isUnreserved (joinNibbles first second) then [joinNibbles first second]
        else [0x25,toAsciiUppercase high,toAsciiUppercase low] := by
  obtain ⟨firstSmall,rfl,upper⟩ := nibbles_small left
  obtain ⟨secondSmall,rfl,lower⟩ := nibbles_small right
  obtain ⟨top,bottom⟩ := joinNibbles_split firstSmall secondSmall
  rw [spell,top,bottom,upper,lower]

theorem normalizeEscapes_reads {text : List UInt8} {parts : List Token} (read : Reads text parts) :
    normalizeEscapes text = spelling parts := by
  induction read with
  | nil => rfl
  | @literal byte bytes parts plain rest ih =>
    rw [normalizeEscapes.eq_def]
    split
    · rename_i same
      exact absurd (List.cons.inj same).1 plain
    · rename_i same
      obtain ⟨rfl,rfl⟩ := List.cons.inj same
      rw [ih,spelling_cons]
      rfl
    · rename_i same
      cases same
  | encoded left right rest ih =>
    rw [normalizeEscapes,left,right]
    dsimp only
    rw [ih,spelling_cons,spell_upper left right]

theorem tokens_spoken {path : Bool} {text : List UInt8} {parts : List Token} (read : tokens path text = .ok parts) :
    ∀ part ∈ parts, Spoken path part := by
  induction text using escape_induction generalizing parts with
  | nil =>
    cases read
    exact fun part member => absurd member List.not_mem_nil
  | literal byte bytes plain ih =>
    rw [tokens_literal _ _ plain] at read
    obtain ⟨rest,behind,read⟩ := bind_success read
    cases read
    intro part member
    rcases List.mem_cons.mp member with rfl | later
    · exact plain
    · exact ih behind part later
  | triplet high low bytes ih =>
    rw [tokens_triplet] at read
    obtain ⟨token,decoded,read⟩ := bind_success read
    obtain ⟨rest,behind,read⟩ := bind_success read
    cases read
    intro part member
    rcases List.mem_cons.mp member with rfl | later
    · obtain ⟨-,outcome⟩ | ⟨first,second,-,-,⟨-,outcome⟩ | ⟨-,-,outcome⟩ | ⟨separator,control,outcome⟩⟩ :=
        decodeTriplet_cases path high low <;> rw [outcome] at decoded <;> cases decoded
      exact ⟨separator,control⟩
    · exact ih behind part later
  | short => cases read
  | shorter high => cases read

theorem spell_digits (byte : UInt8) : TargetBytes.hexValue (TargetBytes.hexDigit (byte >>> 4)) = some (byte >>> 4) ∧
    TargetBytes.hexValue (TargetBytes.hexDigit (byte &&& 0x0f)) = some (byte &&& 0x0f) ∧
    joinNibbles (byte >>> 4) (byte &&& 0x0f) = byte ∧ isUpperHexdigit (TargetBytes.hexDigit (byte >>> 4)) ∧
    isUpperHexdigit (TargetBytes.hexDigit (byte &&& 0x0f)) :=
  forall_byte (p := fun byte => TargetBytes.hexValue (TargetBytes.hexDigit (byte >>> 4)) = some (byte >>> 4) ∧
    TargetBytes.hexValue (TargetBytes.hexDigit (byte &&& 0x0f)) = some (byte &&& 0x0f) ∧
    joinNibbles (byte >>> 4) (byte &&& 0x0f) = byte ∧ isUpperHexdigit (TargetBytes.hexDigit (byte >>> 4)) ∧
    isUpperHexdigit (TargetBytes.hexDigit (byte &&& 0x0f))) (by decide) byte

theorem unreserved_plain (byte : UInt8) (unreserved : isUnreserved byte) : byte ≠ 0x25 := by
  rintro rfl
  revert unreserved
  decide

theorem tokens_spell {path : Bool} {part : Token} (spoken : Spoken path part) (rest : List UInt8) :
    tokens path (spell part ++ rest) = (tokens path rest >>= fun parts => .ok (respell part :: parts)) := by
  cases part with
  | literal byte => exact tokens_literal path rest spoken
  | encoded byte =>
    by_cases unreserved : isUnreserved byte
    · rw [spell,respell,if_pos unreserved,if_pos unreserved]
      exact tokens_literal path rest (unreserved_plain byte unreserved)
    · rw [spell,respell,if_neg unreserved,if_neg unreserved]
      obtain ⟨separator,control⟩ := spoken
      obtain ⟨high,low,whole,-,-⟩ := spell_digits byte
      have decoded : decodeTriplet path (TargetBytes.hexDigit (byte >>> 4)) (TargetBytes.hexDigit (byte &&& 0x0f)) = .ok (.encoded byte) := by
        unfold decodeTriplet
        rw [high,low]
        dsimp only
        rw [whole,separator,control]
        rfl
      change tokens path (0x25 :: TargetBytes.hexDigit (byte >>> 4) :: TargetBytes.hexDigit (byte &&& 0x0f) :: rest) = _
      rw [tokens_triplet,decoded,bind_ok]

theorem spell_respell (part : Token) : spell (respell part) = spell part := by
  cases part with
  | literal byte => rfl
  | encoded byte =>
    rw [respell]
    split
    · rename_i unreserved
      rw [spell,spell,if_pos unreserved]
    · rfl

theorem tokens_spelling {path : Bool} {parts : List Token} (spoken : ∀ part ∈ parts, Spoken path part) :
    tokens path (spelling parts) = .ok (parts.map respell) := by
  induction parts with
  | nil => rfl
  | cons part parts ih =>
    rw [spelling_cons,tokens_spell (spoken part List.mem_cons_self),ih fun other member => spoken other (List.mem_cons_of_mem _ member)]
    rfl

theorem spelling_respell (parts : List Token) : spelling (parts.map respell) = spelling parts := by
  unfold spelling
  rw [List.flatMap_map]
  exact List.flatMap_congr fun part _ => spell_respell part

theorem tight_spell {path : Bool} {part : Token} (spoken : Spoken path part) (rest : List UInt8) :
    tightEscapes (spell part ++ rest) = tightEscapes rest := by
  have plain (byte : UInt8) (other : byte ≠ 0x25) : tightEscapes (byte :: rest) = tightEscapes rest := by
    rw [tightEscapes.eq_def]
    split
    · rename_i same
      exact absurd (List.cons.inj same).1 other
    · rename_i same
      exact absurd (List.cons.inj same).1 other
    · rename_i same
      rw [(List.cons.inj same).2]
    · rename_i same
      cases same
  cases part with
  | literal byte => exact plain byte spoken
  | encoded byte =>
    rw [spell]
    split
    · rename_i unreserved
      exact plain byte (unreserved_plain byte unreserved)
    · rename_i reserved
      obtain ⟨high,low,whole,highUpper,lowUpper⟩ := spell_digits byte
      change tightEscapes (0x25 :: TargetBytes.hexDigit (byte >>> 4) :: TargetBytes.hexDigit (byte &&& 0x0f) :: rest) = _
      rw [tightEscapes,high,low,highUpper,lowUpper]
      dsimp only [Option.getD_some]
      rw [whole,Bool.eq_false_iff.mpr reserved]
      rfl

theorem tight_spelling {path : Bool} {parts : List Token} (spoken : ∀ part ∈ parts, Spoken path part) (rest : List UInt8) :
    tightEscapes (spelling parts ++ rest) = tightEscapes rest := by
  induction parts with
  | nil => rfl
  | cons part parts ih =>
    rw [spelling_cons,List.append_assoc,tight_spell (spoken part List.mem_cons_self),
      ih fun other member => spoken other (List.mem_cons_of_mem _ member)]

end Spellings

section Rereading

/-- The text is a spelling. -/
def Spelled (path : Bool) (text : List UInt8) : Prop := ∃ parts, (∀ part ∈ parts, Spoken path part) ∧ spelling parts = text

theorem Spelled.append {path : Bool} {left right : List UInt8} (first : Spelled path left) (second : Spelled path right) :
    Spelled path (left ++ right) := by
  obtain ⟨parts,spoken,rfl⟩ := first
  obtain ⟨others,spoken',rfl⟩ := second
  refine ⟨parts ++ others,fun part member => ?_,List.flatMap_append⟩
  rcases List.mem_append.mp member with left | right
  · exact spoken part left
  · exact spoken' part right

/-- A segment that stays as it is when a path is normalized. -/
structure Settled (segment : List UInt8) : Prop where
  spelled : Spelled true segment
  plain : (0x2f : UInt8) ∉ segment
  inPath : (0x3f : UInt8) ∉ segment
  ordinary : isDotSegment segment = false
  visible : ∀ b ∈ segment, isAsciiGraphic b ∧ b ≠ 0x23 ∧ b ≠ 0x5c

theorem settled_nil : Settled [] :=
  ⟨⟨[],fun _ member => absurd member List.not_mem_nil,rfl⟩,List.not_mem_nil,List.not_mem_nil,rfl,
    fun _ member => absurd member List.not_mem_nil⟩

variable {segments : List (List UInt8)}

theorem joined_spelled (settled : ∀ segment ∈ segments, Settled segment) : Spelled true (joined segments) := by
  induction segments with
  | nil => exact settled_nil.spelled
  | cons segment segments ih =>
    have slashed : Spelled true [0x2f] := by
      refine ⟨[slash],fun part member => ?_,rfl⟩
      rw [List.mem_singleton.mp member]
      exact (show (0x2f : UInt8) ≠ 0x25 by decide)
    rw [joined,List.flatMap_cons]
    exact (slashed.append (settled segment List.mem_cons_self).spelled).append
      (ih fun other member => settled other (List.mem_cons_of_mem _ member))

theorem mem_joined {byte : UInt8} (member : byte ∈ joined segments) : byte = 0x2f ∨ ∃ segment ∈ segments, byte ∈ segment := by
  obtain ⟨segment,among,inside⟩ := List.mem_flatMap.mp member
  rcases List.mem_cons.mp inside with rfl | within
  · exact .inl rfl
  · exact .inr ⟨segment,among,within⟩

theorem openSegments_settled' (settled : ∀ segment ∈ segments, Settled segment) (kept : List (List UInt8)) :
    segments.foldlM advance kept = some (kept ++ segments) := by
  induction segments generalizing kept with
  | nil => rw [List.append_nil]; rfl
  | cons segment segments ih =>
    have ordinary := (settled segment List.mem_cons_self).ordinary
    unfold isDotSegment at ordinary
    rw [Bool.or_eq_false_iff] at ordinary
    rw [List.foldlM_cons,advance,ordinary.1,ordinary.2,if_neg Bool.false_ne_true,if_neg Bool.false_ne_true,Option.bind_eq_bind,
      Option.bind_some,ih fun other member => settled other (List.mem_cons_of_mem _ member),List.append_assoc]
    rfl

theorem settle_settled (some : segments ≠ []) (settled : ∀ segment ∈ segments, Settled segment) :
    settle segments segments.getLast? = segments := by
  rw [settle,List.getLast?_eq_some_getLast some,Option.any_some,(settled _ (List.getLast_mem some)).ordinary]
  rfl

/-- What is left of a settled path behind its first slash is read back as its segments. -/
theorem tokens_settled (some : segments ≠ []) (settled : ∀ segment ∈ segments, Settled segment) :
    ∃ parts, tokens true ((joined segments).drop 1) = .ok parts ∧ segmentsOf parts = segments := by
  have spelled : Spelled true ((joined segments).drop 1) := by
    cases segments with
    | nil => exact absurd rfl some
    | cons segment segments =>
      rw [joined,List.flatMap_cons]
      exact (settled segment List.mem_cons_self).spelled.append
        (joined_spelled fun other member => settled other (List.mem_cons_of_mem _ member))
  obtain ⟨parts,spoken,same⟩ := spelled
  refine ⟨parts.map respell,by rw [← same,tokens_spelling spoken],?_⟩
  rw [← spelling_splitOn,spelling_respell,same,joined_intercalate some,List.drop_one,List.tail_cons]
  exact List.splitOn_intercalate 0x2f (fun segment member => (settled segment member).plain) some

theorem splitQuery_withQuery {routing : List UInt8} (absent : (0x3f : UInt8) ∉ routing) (query : Option (List Token)) :
    splitQuery (withQuery routing query) = (routing,query.map spelling) := by
  cases query with
  | none => rw [withQuery,splitQuery,(splitOnce_absent absent).1]; rfl
  | some parts => rw [withQuery,splitQuery,splitOnce_first absent]; rfl

theorem queryTokens_spelled {query : Option (List Token)} (spoken : ∀ parts ∈ query, ∀ part ∈ parts, Spoken false part) :
    queryTokens (query.map spelling) = .ok (query.map (List.map respell)) := by
  cases query with
  | none => rfl
  | some parts =>
    rw [Option.map_some,queryTokens,tokens_spelling (spoken parts rfl)]
    rfl

theorem withQuery_respell (routing : List UInt8) (query : Option (List Token)) :
    withQuery routing (query.map (List.map respell)) = withQuery routing query := by
  cases query with
  | none => rfl
  | some parts => rw [Option.map_some,withQuery,withQuery,spelling_respell]

theorem canonicalTarget_again (some : segments ≠ []) (settled : ∀ segment ∈ segments, Settled segment)
    {query : Option (List Token)} (spoken : ∀ parts ∈ query, ∀ part ∈ parts, Spoken false part) :
    canonicalTarget (withQuery (joined segments) query) = .ok (withQuery (joined segments) query,joined segments) ∧
      losesFinalSlash (withQuery (joined segments) query) = false := by
  have absent : (0x3f : UInt8) ∉ joined segments := by
    intro member
    rcases mem_joined member with impossible | ⟨segment,among,inside⟩
    · cases impossible
    · exact (settled segment among).inPath inside
  obtain ⟨parts,read,split⟩ := tokens_settled some settled
  have opened : openSegments segments = .some segments := openSegments_settled' settled []
  have whole : routingPath parts segments = joined segments := by rw [routingPath,split,settle_settled some settled]
  constructor
  · unfold canonicalTarget
    rw [splitQuery_withQuery absent query]
    dsimp only
    rw [read,bind_ok,split,opened,rooted_some,bind_ok,queryTokens_spelled spoken,bind_ok,whole,withQuery_respell]
  · unfold losesFinalSlash
    rw [splitQuery_withQuery absent query]
    dsimp only
    rw [read]
    dsimp only
    have ordinary := (settled _ (List.getLast_mem some)).ordinary
    unfold isDotSegment at ordinary
    rw [Bool.or_eq_false_iff,beq_eq_false_iff_ne,beq_eq_false_iff_ne] at ordinary
    rw [split,opened,Option.any_some,losesSlash,List.getLast?_eq_some_getLast some,
      beq_eq_false_iff_ne.mpr fun same => ordinary.2 (Option.some.inj same)]
    rfl

end Rereading

section Readings

theorem spelling_bytes {text : List UInt8} {parts : List Token} (read : Reads text parts) {holds : UInt8 → Prop}
    (plain : ∀ b ∈ text, holds b) (spelled : ∀ byte, ∀ b ∈ spell (.encoded byte), holds b) : ∀ b ∈ spelling parts, holds b := by
  intro b member
  obtain ⟨part,inside,written⟩ := List.mem_flatMap.mp member
  cases part with
  | literal byte =>
    rw [List.mem_singleton.mp written]
    exact plain byte (tokens_literal_mem read byte inside)
  | encoded byte => exact spelled byte b written

theorem encoded_visible (byte : UInt8) : ∀ b ∈ spell (.encoded byte), isAsciiGraphic b ∧ b ≠ 0x23 ∧ b ≠ 0x5c ∧ b ≠ 0x3f := by
  have table := forall_byte (p := fun byte => ((spell (.encoded byte)).all fun b =>
    isAsciiGraphic b && b != 0x23 && b != 0x5c && b != 0x3f) = true) (by decide) byte
  intro b member
  have visible := List.all_eq_true.mp table b member
  simp only [Bool.and_eq_true,bne_iff_ne,ne_eq] at visible
  exact ⟨visible.1.1.1,visible.1.1.2,visible.1.2,visible.2⟩

theorem walked_mem {segments start kept : List (List UInt8)} (walked : segments.foldlM advance start = some kept) :
    ∀ segment ∈ kept, segment ∈ start ∨ (segment ∈ segments ∧ isDotSegment segment = false) := by
  induction segments generalizing start with
  | nil =>
    cases walked
    exact fun segment member => .inl member
  | cons first segments ih =>
    rw [List.foldlM_cons] at walked
    obtain ⟨next,stepped,walked⟩ := Option.bind_eq_some_iff.mp walked
    intro segment member
    rcases ih walked segment member with opened | ⟨later,ordinary⟩
    · unfold advance at stepped
      split at stepped
      · cases stepped
        exact .inl opened
      · rename_i dot
        split at stepped
        · split at stepped
          · cases stepped
          · cases stepped
            exact .inl ((List.dropLast_sublist start).mem opened)
        · rename_i dots
          cases stepped
          rcases List.mem_append.mp opened with before | now
          · exact .inl before
          · rw [List.mem_singleton.mp now,isDotSegment,Bool.or_eq_false_iff]
            exact .inr ⟨List.mem_cons_self,Bool.eq_false_iff.mpr dot,Bool.eq_false_iff.mpr dots⟩
    · exact .inr ⟨List.mem_cons_of_mem _ later,ordinary⟩

theorem kept_settled {path : List UInt8} {parts : List Token} {kept : List (List UInt8)} (read : tokens true path = .ok parts)
    (inPath : (0x3f : UInt8) ∉ path) (visible : ∀ b ∈ path, isAsciiGraphic b ∧ b ≠ 0x23 ∧ b ≠ 0x5c)
    (walked : openSegments (segmentsOf parts) = some kept) : ∀ segment ∈ kept, Settled segment := by
  have reads := tokens_reads read
  have spoken := tokens_spoken read
  have bytes : ∀ b ∈ spelling parts, isAsciiGraphic b ∧ b ≠ 0x23 ∧ b ≠ 0x5c ∧ b ≠ 0x3f := by
    refine spelling_bytes reads (fun b member => ?_) encoded_visible
    obtain ⟨graphic,fragment,backslash⟩ := visible b member
    exact ⟨graphic,fragment,backslash,fun same => inPath (same ▸ member)⟩
  intro segment member
  obtain impossible | ⟨among,ordinary⟩ := walked_mem walked segment member
  · cases impossible
  · have inside : ∀ b ∈ segment, b ∈ spelling parts := by
      rw [← spelling_splitOn] at among
      exact fun b within => mem_of_mem_splitOn among within
    refine ⟨?_,?_,fun within => (bytes _ (inside _ within)).2.2.2 rfl,ordinary,fun b within => ?_⟩
    · obtain ⟨tokens,split,rfl⟩ := List.mem_map.mp among
      exact ⟨tokens,fun part held => spoken part (mem_of_mem_splitOn split held),rfl⟩
    · intro within
      rw [← spelling_splitOn] at among
      exact separator_free among within
    · obtain ⟨graphic,fragment,backslash,-⟩ := bytes b (inside b within)
      exact ⟨graphic,fragment,backslash⟩

theorem settle_all {path : List UInt8} {parts : List Token} {kept : List (List UInt8)} (read : tokens true path = .ok parts)
    (inPath : (0x3f : UInt8) ∉ path) (visible : ∀ b ∈ path, isAsciiGraphic b ∧ b ≠ 0x23 ∧ b ≠ 0x5c)
    (walked : openSegments (segmentsOf parts) = some kept) : ∀ segment ∈ settle kept (segmentsOf parts).getLast?, Settled segment := by
  have each := kept_settled read inPath visible walked
  unfold settle
  split
  · intro segment member
    rcases List.mem_append.mp member with before | last
    · exact each segment before
    · rw [List.mem_singleton.mp last]
      exact settled_nil
  · exact each

theorem walked_dots {segments start kept : List (List UInt8)} (walked : segments.foldlM advance start = some kept) :
    segments.foldl DotSegments.openSegment start = kept := by
  induction segments generalizing start with
  | nil =>
    cases walked
    rfl
  | cons first segments ih =>
    rw [List.foldlM_cons] at walked
    obtain ⟨next,stepped,walked⟩ := Option.bind_eq_some_iff.mp walked
    rw [List.foldl_cons]
    have same : DotSegments.openSegment start first = next := by
      unfold advance at stepped
      unfold DotSegments.openSegment
      change (if first == ascii "." then _ else if first == ascii ".." then _ else _) = _
      split at stepped
      · rename_i dot
        rw [if_pos dot]
        exact Option.some.inj stepped
      · rename_i dot
        rw [if_neg dot]
        split at stepped
        · rename_i dots
          rw [if_pos dots]
          split at stepped
          · cases stepped
          · exact Option.some.inj stepped
        · rename_i dots
          rw [if_neg dots]
          exact Option.some.inj stepped
    rw [same,ih walked]

/-- The normalized path is the path with its escapes normalized and its dot segments removed. -/
theorem routingPath_dots {path : List UInt8} {parts : List Token} {kept : List (List UInt8)} (read : Reads path parts)
    (walked : openSegments (segmentsOf parts) = some kept) :
    DotSegments.removeDotSegments (normalizeEscapes (0x2f :: path)) = routingPath parts kept := by
  have nonempty := segmentsOf_ne_nil parts
  have text : normalizeEscapes (0x2f :: path) = DotSegments.joined (segmentsOf parts) := by
    change _ = RequestTarget.joined (segmentsOf parts)
    rw [normalizeEscapes_reads (.literal (by decide) read),joined_intercalate nonempty,← spelling_splitOn,List.intercalate_splitOn]
    rfl
  have plain : ∀ segment ∈ segmentsOf parts, (0x2f : UInt8) ∉ segment := by
    rw [← spelling_splitOn]
    exact fun segment among => separator_free among
  have removed := DotSegments.removeDots_joined nonempty plain [] fun segment member => absurd member List.not_mem_nil
  rw [walked_dots walked] at removed
  rw [DotSegments.removeDotSegments,text]
  refine removed.trans ?_
  rw [routingPath,settle,List.getLast?_eq_some_getLast nonempty]
  rfl

end Readings

section Texts

/-- The query behind its question mark, if there is one, with its escapes normalized. -/
def queryPart : Option (List UInt8) → List UInt8
  | none => []
  | some query => 0x3f :: normalizeEscapes query

/-- What a path and its query are read as. -/
structure CanonicalText (value pathAndQuery routing : List UInt8) : Prop where
  dotless : routing = DotSegments.removeDotSegments (normalizeEscapes (splitQuery value).1)
  behind : pathAndQuery = routing ++ queryPart (splitQuery value).2
  segments : ∀ segment ∈ routing.splitOn 0x2f, isDotSegment segment = false
  escapes : tightEscapes pathAndQuery
  text : PathText pathAndQuery
  again : canonicalTarget pathAndQuery = .ok (pathAndQuery,routing)
  closed : losesFinalSlash pathAndQuery = false

theorem canonicalTarget_parts {value pathAndQuery routing : List UInt8}
    (read : canonicalTarget value = .ok (pathAndQuery,routing)) : ∃ parts kept query,
      tokens true ((splitQuery value).1.drop 1) = .ok parts ∧ openSegments (segmentsOf parts) = some kept ∧
        queryTokens (splitQuery value).2 = .ok query ∧ routing = routingPath parts kept ∧ pathAndQuery = withQuery routing query := by
  obtain ⟨parts,tokenized,read⟩ := bind_success read
  obtain ⟨kept,walked,read⟩ := bind_success read
  obtain ⟨query,queried,read⟩ := bind_success read
  cases read
  exact ⟨parts,kept,query,tokenized,rooted_ok walked,queried,rfl,rfl⟩

theorem withQuery_part {routing : List UInt8} {text : Option (List UInt8)} {query : Option (List Token)}
    (queried : queryTokens text = .ok query) : withQuery routing query = routing ++ queryPart text := by
  rcases queryTokens_reads queried with ⟨rfl,rfl⟩ | ⟨text,parts,rfl,rfl,reads⟩
  · exact (List.append_nil routing).symm
  · rw [withQuery,queryPart,normalizeEscapes_reads reads]

theorem queryTokens_spoken {text : Option (List UInt8)} {query : Option (List Token)} (queried : queryTokens text = .ok query) :
    ∀ parts ∈ query, ∀ part ∈ parts, Spoken false part := by
  cases text with
  | none =>
    cases queried
    exact fun parts member => by cases member
  | some text =>
    obtain ⟨spelled,reading,queried⟩ := bind_success queried
    cases queried
    intro parts member
    cases member
    exact tokens_spoken reading

theorem tight_withQuery {routing : List UInt8} (spelled : Spelled true routing) {query : Option (List Token)}
    (spoken : ∀ parts ∈ query, ∀ part ∈ parts, Spoken false part) : tightEscapes (withQuery routing query) := by
  obtain ⟨path,pathSpoken,rfl⟩ := spelled
  cases query with
  | none =>
    have whole := tight_spelling pathSpoken []
    rw [List.append_nil] at whole
    exact whole
  | some parts =>
    have mark : Spoken false (.literal 0x3f) := show (0x3f : UInt8) ≠ 0x25 by decide
    have whole := tight_spelling (spoken parts rfl) []
    rw [List.append_nil] at whole
    rw [withQuery,tight_spelling pathSpoken]
    exact (tight_spell mark (spelling parts)).trans whole

theorem canonical_text {value pathAndQuery routing : List UInt8} (text : PathText value)
    (read : canonicalTarget value = .ok (pathAndQuery,routing)) : CanonicalText value pathAndQuery routing := by
  obtain ⟨path,question,split,visible,queryVisible,-⟩ := text.parts
  obtain ⟨bounded,-⟩ := canonicalTarget_length text read
  obtain ⟨parts,kept,query,tokenized,walked,queried,rfl,rfl⟩ := canonicalTarget_parts read
  have inPath : (0x3f : UInt8) ∉ path := by
    rcases splitQuery_cases value with ⟨absent,same⟩ | ⟨front,back,-,absent,same⟩
    · rw [split] at same
      cases same
      exact fun member => absent (List.mem_cons_of_mem _ member)
    · rw [split] at same
      cases same
      exact fun member => absent (List.mem_cons_of_mem _ member)
  rw [split] at tokenized queried
  rw [List.drop_one,List.tail_cons] at tokenized
  have settled := settle_all tokenized inPath visible walked
  have some := settle_ne_nil (segmentsOf_ne_nil parts) [] walked
  have spoken := queryTokens_spoken queried
  obtain ⟨again,closed⟩ := canonicalTarget_again some settled spoken
  have bytes : ∀ b ∈ withQuery (routingPath parts kept) query, isAsciiGraphic b ∧ b ≠ 0x23 ∧ b ≠ 0x5c := by
    have inRouting : ∀ b ∈ routingPath parts kept, isAsciiGraphic b ∧ b ≠ 0x23 ∧ b ≠ 0x5c := by
      intro b member
      rcases mem_joined member with rfl | ⟨segment,among,inside⟩
      · decide
      · exact (settled segment among).visible b inside
    rcases queryTokens_reads queried with ⟨-,rfl⟩ | ⟨asked,spelled,same,rfl,reads⟩
    · exact inRouting
    · intro b member
      rcases List.mem_append.mp member with left | right
      · exact inRouting b left
      · rcases List.mem_cons.mp right with rfl | inside
        · decide
        · refine spelling_bytes reads (queryVisible asked same) (fun byte b written => ?_) b inside
          obtain ⟨graphic,fragment,backslash,-⟩ := encoded_visible byte b written
          exact ⟨graphic,fragment,backslash⟩
  refine ⟨?_,?_,?_,tight_withQuery (joined_spelled settled) spoken,⟨?_,bytes,bounded⟩,again,closed⟩
  · rw [split,routingPath_dots (tokens_reads tokenized) walked]
  · rw [split]
    exact withQuery_part queried
  · rw [routingPath,joined_intercalate some,List.splitOn_cons_eq_if_modifyHead,beq_self_eq_true,if_pos rfl,
      List.splitOn_intercalate 0x2f (fun segment member => (settled segment member).plain) some]
    intro segment member
    rcases List.mem_cons.mp member with rfl | inside
    · rfl
    · exact (settled segment inside).ordinary
  · have slashed := routingPath_slashed walked
    unfold startsWith at slashed ⊢
    rw [beq_iff_eq] at slashed ⊢
    cases query with
    | none => exact slashed
    | some spelled =>
      obtain ⟨rest,same⟩ := List.head?_eq_some_iff.mp slashed
      rw [withQuery,same]
      rfl

theorem eager_canonical {value : List UInt8} {target : List UInt8 × List UInt8} :
    eagerTarget value = .ok target ↔ canonicalTarget value = .ok target := by
  constructor
  · intro read
    obtain ⟨parts,tokenized,read⟩ := bind_success read
    obtain ⟨query,queried,read⟩ := bind_success read
    obtain ⟨kept,walked,read⟩ := bind_success read
    rw [canonicalTarget,tokenized,bind_ok,walked,bind_ok,queried,bind_ok]
    exact read
  · intro read
    obtain ⟨parts,tokenized,read⟩ := bind_success read
    obtain ⟨kept,walked,read⟩ := bind_success read
    obtain ⟨query,queried,read⟩ := bind_success read
    rw [eagerTarget,tokenized,bind_ok,queried,bind_ok,walked,bind_ok]
    exact read

/-- The routing path that has lost its final slash is not the one that RFC 3986 asks for. -/
theorem terse_loses {value pathAndQuery routing : List UInt8} (text : PathText value) (loses : losesFinalSlash value)
    (read : terseTarget value = .ok (pathAndQuery,routing)) :
    routing ≠ DotSegments.removeDotSegments (normalizeEscapes (splitQuery value).1) := by
  obtain ⟨path,question,split,-,-,-⟩ := text.parts
  obtain ⟨parts,tokenized,read⟩ := bind_success read
  obtain ⟨kept,walked,read⟩ := bind_success read
  obtain ⟨query,-,read⟩ := bind_success read
  have opened := rooted_ok walked
  unfold losesFinalSlash at loses
  rw [tokenized] at loses
  dsimp only at loses
  rw [opened,Option.any_some] at loses
  rw [if_pos loses] at read
  cases read
  rw [split] at tokenized ⊢
  rw [List.drop_one,List.tail_cons] at tokenized
  rw [routingPath_dots (tokens_reads tokenized) opened]
  exact losesSlash_differs loses

end Texts

section Requests

/-- The path and query that a request asks for: the target itself, or what follows the authority of an absolute one. -/
def targetPath (request : RequestLine) : List UInt8 :=
  if startsWith 0x2f request.target then request.target
  else match schemeOf request.target with
    | some (length,_) => pathOf (request.target.drop length)
    | none => []

/-- The target of a request is in canonical form, and stays as it is when it is asked for again in origin form. -/
structure CanonicalForm (normalize : RequestLine → Result NormalizedTarget) (request : RequestLine) (target : NormalizedTarget) :
    Prop where
  routing : target.routingPath = DotSegments.removeDotSegments (normalizeEscapes (splitQuery (targetPath request)).1)
  query : target.pathAndQuery = target.routingPath ++ queryPart (splitQuery (targetPath request)).2
  segments : ∀ segment ∈ target.routingPath.splitOn 0x2f, isDotSegment segment = false
  escapes : tightEscapes target.pathAndQuery
  bounded : target.pathAndQuery.length ≤ targetLimit
  again : ∀ other : RequestLine, other.target = target.pathAndQuery → other.method.map toAsciiLowercase = other.method →
    other.method ≠ ascii "connect" → normalize other = .ok ⟨.origin,none,none,target.pathAndQuery,target.routingPath⟩

theorem escapesFrom_clean {context : RequestTargetTypedMatrix.EscapeContext} {text output result : List UInt8}
    (read : RequestTargetTypedMatrix.escapesFrom context output text = .ok result) : (0x5c : UInt8) ∉ text := by
  induction text using escape_induction generalizing output with
  | nil => exact List.not_mem_nil
  | literal byte bytes plain ih =>
    unfold RequestTargetTypedMatrix.escapesFrom at read
    split at read
    · cases read
    · rename_i allowed
      rw [if_neg (by rw [beq_iff_eq]; exact plain)] at read
      rw [List.mem_cons,not_or]
      refine ⟨?_,ih read⟩
      rintro rfl
      exact allowed rfl
  | triplet high low bytes ih =>
    unfold RequestTargetTypedMatrix.escapesFrom at read
    rw [if_neg (by decide),if_pos (by decide)] at read
    dsimp only at read
    have digit {byte : UInt8} (some : TargetBytes.hexValue byte ≠ none) : byte ≠ 0x5c := by
      rintro rfl
      exact some rfl
    cases left : TargetBytes.hexValue high with
    | none =>
      rw [left] at read
      cases read
    | some first =>
      cases right : TargetBytes.hexValue low with
      | none =>
        rw [left,right] at read
        cases read
      | some second =>
        rw [left,right] at read
        dsimp only at read
        have rest : (0x5c : UInt8) ∉ bytes := by
          split at read
          · cases read
          · split at read
            · cases read
            · split at read
              · exact ih read
              · exact ih read
        simp only [List.mem_cons,not_or]
        exact ⟨by decide,Ne.symm (digit (by rw [left]; exact Option.some_ne_none _)),
          Ne.symm (digit (by rw [right]; exact Option.some_ne_none _)),rest⟩
  | short => cases read
  | shorter high => cases read

theorem typed_path_clean {raw : List UInt8} {path : RequestTargetTypedMatrix.CanonicalPath}
    (accepted : RequestTargetTypedMatrix.canonicalPathQuery raw = .ok path) : (0x5c : UInt8) ∉ raw := by
  unfold RequestTargetTypedMatrix.canonicalPathQuery at accepted
  split at accepted
  · cases accepted
  · split at accepted
    · cases accepted
    · rcases splitQuery_cases raw with ⟨-,split⟩ | ⟨front,query,same,-,split⟩
      · rw [split] at accepted
        obtain ⟨decoded,decodes,-⟩ := bind_success accepted
        obtain ⟨output,escaped,-⟩ := bind_success decodes
        exact escapesFrom_clean escaped
      · rw [split] at accepted
        obtain ⟨decoded,decodes,accepted⟩ := bind_success accepted
        obtain ⟨output,inPath,-⟩ := bind_success decodes
        obtain ⟨routing,-,accepted⟩ := bind_success accepted
        obtain ⟨whole,asked,-⟩ := bind_success accepted
        obtain ⟨queried,inQuery,-⟩ := bind_success asked
        rw [same,List.mem_append,List.mem_cons,not_or,not_or]
        exact ⟨escapesFrom_clean inPath,by decide,escapesFrom_clean inQuery⟩

theorem authority_clean {text authority : List UInt8} {rule : RequestTargetTypedMatrix.AuthorityPort} (small : ∀ b ∈ text, isAscii b)
    (accepted : RequestTargetTypedMatrix.canonicalAuthority text rule = .ok authority) : (0x5c : UInt8) ∉ text := by
  rw [typed_authority rule small,keptAuthority] at accepted
  cases read : readAuthority (portRequired rule) text with
  | none =>
    rw [read] at accepted
    cases accepted
  | some found => exact fun member => absurd (readAuthority_inside read 0x5c member) (by decide)

theorem scheme_clean {target word : List UInt8} (found : startsAsciiCaseInsensitive target word = true)
    (plain : (0x5c : UInt8) ∉ word.map toAsciiLowercase) : (0x5c : UInt8) ∉ target.take word.length := by
  unfold startsAsciiCaseInsensitive eqIgnoreAsciiCase at found
  rw [Bool.and_eq_true,beq_iff_eq] at found
  intro member
  rw [← found.2] at plain
  exact plain (List.mem_map.mpr ⟨0x5c,member,by decide⟩)

theorem typed_absolute_clean {scheme : RequestTargetTypedMatrix.Scheme} {remainder : List UInt8} {target : NormalizedTarget}
    (small : ∀ b ∈ remainder, isAscii b) (accepted : RequestTargetTypedMatrix.absoluteResult scheme remainder = .ok target) :
    (0x5c : UInt8) ∉ remainder := by
  unfold RequestTargetTypedMatrix.absoluteResult at accepted
  split at accepted
  · cases accepted
  · obtain ⟨authority,named,accepted⟩ := bind_success accepted
    obtain ⟨tail,tailed,accepted⟩ := bind_success accepted
    obtain ⟨path,found,-⟩ := bind_success accepted
    have inAuthority := authority_clean (fun b member => small b (List.mem_of_mem_take member)) named
    have inTail := typed_path_clean found
    rw [← List.take_append_drop ((position (fun byte => byte == 0x2f || byte == 0x3f) remainder).getD remainder.length) remainder,
      List.mem_append,not_or]
    refine ⟨inAuthority,?_⟩
    unfold RequestTargetTypedMatrix.tailPath at tailed
    split at tailed
    · rename_i empty
      rw [List.isEmpty_iff.mp empty]
      exact List.not_mem_nil
    · split at tailed
      · cases tailed
        exact fun member => inTail (List.mem_cons_of_mem _ member)
      · split at tailed
        · cases tailed
          exact inTail
        · cases tailed

theorem typed_clean {request : RequestLine} (produced : Produced request) {target : NormalizedTarget}
    (accepted : RequestTargetTypedMatrix.normalizeRequestTarget request = .ok target) : (0x5c : UInt8) ∉ request.target := by
  have small : ∀ b ∈ request.target, isAscii b :=
    fun b member => RequestTarget.graphic_ascii b (produced.visible b member).1
  have absolutes {word : List UInt8} {scheme : RequestTargetTypedMatrix.Scheme}
      (found : startsAsciiCaseInsensitive request.target word = true) (plain : (0x5c : UInt8) ∉ word.map toAsciiLowercase)
      (read : RequestTargetTypedMatrix.absoluteResult scheme (request.target.drop word.length) = .ok target) :
      (0x5c : UInt8) ∉ request.target := by
    rw [← List.take_append_drop word.length request.target,List.mem_append,not_or]
    exact ⟨scheme_clean found plain,typed_absolute_clean (fun b member => small b (List.mem_of_mem_drop member)) read⟩
  obtain ⟨⟨method,kind⟩,bounded,accepted⟩ := bind_success accepted
  unfold RequestTargetTypedMatrix.Boundary.check at bounded
  split at bounded
  · cases bounded
  · obtain ⟨-,kinds⟩ := RequestTargetTypedMatrix.Boundary.mk.inj (Except.ok.inj bounded)
    dsimp only at accepted
    split at accepted
    · split_ifs at kinds with star
      rw [beq_iff_eq.mp star]
      decide
    · cases accepted
    · obtain ⟨authority,named,-⟩ := bind_success accepted
      split_ifs at kinds
      cases kinds
      exact authority_clean small named
    · cases accepted
    · obtain ⟨path,found,-⟩ := bind_success accepted
      split_ifs at kinds
      cases kinds
      exact typed_path_clean found
    · split_ifs at kinds with star slashed http https
      · cases kinds
        exact absolutes http (by decide) accepted
      · cases kinds
        exact absolutes https (by decide) accepted
    · cases accepted

end Requests

section Canonical

/-- The implementation follows a dialect on the request lines without a backslash. -/
def Follows (normalizer : RequestLine → Result NormalizedTarget) (dialect : Dialect) : Prop :=
  ∀ request, Produced request → (0x5c : UInt8) ∉ request.target → normalizer request = normalize dialect request

theorem normalize_path {dialect : Dialect} {request : RequestLine} {target : NormalizedTarget}
    (produced : Produced request) (clean : (0x5c : UInt8) ∉ request.target) (accepted : normalize dialect request = .ok target)
    (pathed : target.form = .origin ∨ target.form = .absolute) :
    PathText (targetPath request) ∧ dialect.path (targetPath request) = .ok (target.pathAndQuery,target.routingPath) := by
  unfold normalize at accepted
  split at accepted
  · split at accepted
    · cases accepted
      rcases pathed with impossible | impossible <;> cases impossible
    · cases accepted
  · split at accepted
    · split at accepted
      · cases accepted
      · obtain ⟨authority,-,accepted⟩ := bind_success accepted
        cases accepted
        rcases pathed with impossible | impossible <;> cases impossible
    · unfold targetPath
      split at accepted
      · rename_i slashed
        obtain ⟨path,found,accepted⟩ := bind_success accepted
        cases accepted
        rw [if_pos slashed]
        exact ⟨origin_text produced clean slashed,found⟩
      · rename_i plain
        rw [if_neg plain]
        split at accepted
        · cases accepted
        · rename_i length scheme found
          obtain ⟨authority,-,accepted⟩ := bind_success accepted
          obtain ⟨path,read,accepted⟩ := bind_success accepted
          cases accepted
          rw [found]
          exact ⟨(absolute_text produced clean found).1,read⟩

theorem normalize_origin {dialect : Dialect} {other : RequestLine} (slashed : startsWith 0x2f other.target)
    (method : other.method ≠ ascii "connect") :
    normalize dialect other = (dialect.path other.target >>= fun target => .ok ⟨.origin,none,none,target.1,target.2⟩) := by
  have star : (other.target == ascii "*") = false := by
    rw [beq_eq_false_iff_ne]
    intro same
    rw [same] at slashed
    cases slashed
  unfold normalize
  rw [star,if_neg Bool.false_ne_true,if_neg (by rw [beq_iff_eq]; exact method),if_pos slashed]

theorem canonical_produced {value pathAndQuery routing : List UInt8} (canonical : CanonicalText value pathAndQuery routing)
    {other : RequestLine} (same : other.target = pathAndQuery) (lowercase : other.method.map toAsciiLowercase = other.method) :
    Produced other ∧ (0x5c : UInt8) ∉ other.target := by
  have text := canonical.text
  rw [← same] at text
  refine ⟨⟨lowercase,?_,fun b member => ⟨(text.visible b member).1,(text.visible b member).2.1⟩,text.bounded⟩,
    fun member => (text.visible _ member).2.2 rfl⟩
  intro empty
  have slashed := text.slashed
  rw [empty] at slashed
  cases slashed

/-- An implementation whose dialect reads a path as the canonical one leaves the target in canonical form. -/
theorem follows_canonical {normalizer : RequestLine → Result NormalizedTarget} {dialect : Dialect} (follows : Follows normalizer dialect)
    {request : RequestLine} {target : NormalizedTarget} (text : PathText (targetPath request))
    (read : canonicalTarget (targetPath request) = .ok (target.pathAndQuery,target.routingPath))
    (same : ∀ value found, canonicalTarget value = .ok found → losesFinalSlash value = false → dialect.path value = .ok found) :
    CanonicalForm normalizer request target := by
  have canonical := canonical_text text read
  refine ⟨canonical.dotless,canonical.behind,canonical.segments,canonical.escapes,canonical.text.bounded,
    fun other asked lowercase method => ?_⟩
  obtain ⟨produced,clean⟩ := canonical_produced canonical asked lowercase
  have slashed := canonical.text.slashed
  rw [← asked] at slashed
  rw [follows other produced clean,normalize_origin slashed method,asked,
    same _ _ canonical.again canonical.closed,bind_ok]

theorem rules_follows : Follows RequestTargetRules.normalizeRequestTarget common := fun _ => rules_reference

theorem pipeline_follows : Follows RequestTargetValidatedPipeline.normalizeRequestTarget common := fun _ => pipeline_reference

theorem offsets_follows : Follows RequestTargetInvariantOffsets.normalizeRequestTarget eager := fun _ => offsets_reference

theorem typed_follows : Follows RequestTargetTypedMatrix.normalizeRequestTarget terse := fun _ => typed_reference

theorem composable_follows : Follows RequestTargetComposableValidators.normalizeRequestTarget common :=
  fun _ => composable_reference

/-- An accepted target with a path is in canonical form exactly when it is not the typed matrix that accepted it, or the path does
not end in two dots behind an empty open segment. -/
theorem canonical_form_iff {parse : List UInt8 → Result RequestLine} (registered : parse ∈ requestLineImplementations)
    {input : List UInt8} {request : RequestLine} (parsed : parse input = .ok request)
    {normalizer : RequestLine → Result NormalizedTarget} (implemented : normalizer ∈ requestTargetImplementations)
    {target : NormalizedTarget} (accepted : normalizer request = .ok target)
    (pathed : target.form = .origin ∨ target.form = .absolute) : CanonicalForm normalizer request target ↔
      ¬(normalizer = RequestTargetTypedMatrix.normalizeRequestTarget ∧ losesFinalSlash (targetPath request)) := by
  have produced := produced_of_parse registered parsed
  by_cases typed : normalizer = RequestTargetTypedMatrix.normalizeRequestTarget
  · subst typed
    have clean := typed_clean produced accepted
    rw [typed_reference produced clean] at accepted
    obtain ⟨text,read⟩ := normalize_path produced clean accepted pathed
    constructor
    · rintro form ⟨-,loses⟩
      exact terse_loses text loses read form.routing
    · intro keeps
      have same (value : List UInt8) (found : List UInt8 × List UInt8) (accepted : canonicalTarget value = .ok found)
          (closed : losesFinalSlash value = false) : terseTarget value = .ok found := by
        rw [(terse_agrees value).mpr fun loses => absurd (closed.symm.trans loses) Bool.false_ne_true,accepted]
      refine follows_canonical typed_follows text ?_ same
      have agrees := (terse_agrees (targetPath request)).mpr fun loses => absurd ⟨rfl,loses⟩ keeps
      exact agrees.symm.trans read
  · refine iff_of_true ?_ fun both => typed both.1
    have others : normalizer ∈ [RequestTargetRules.normalizeRequestTarget,RequestTargetValidatedPipeline.normalizeRequestTarget,
        RequestTargetInvariantOffsets.normalizeRequestTarget,RequestTargetComposableValidators.normalizeRequestTarget] := by
      simp only [requestTargetImplementations,List.mem_cons,List.not_mem_nil,or_false] at implemented ⊢
      tauto
    have clean := enveloped_clean others produced accepted
    have commonly (value : List UInt8) (found : List UInt8 × List UInt8) (accepted : canonicalTarget value = .ok found)
        (_ : losesFinalSlash value = false) : common.path value = .ok found := accepted
    have finish {other : RequestLine → Result NormalizedTarget} (follows : Follows other common)
        (accepted : other request = .ok target) : CanonicalForm other request target := by
      rw [follows request produced clean] at accepted
      obtain ⟨text,read⟩ := normalize_path produced clean accepted pathed
      exact follows_canonical follows text read commonly
    simp only [List.mem_cons,List.not_mem_nil,or_false] at others
    rcases others with rfl | rfl | rfl | rfl
    · exact finish rules_follows accepted
    · exact finish pipeline_follows accepted
    · rw [offsets_reference produced clean] at accepted
      obtain ⟨text,read⟩ := normalize_path produced clean accepted pathed
      exact follows_canonical offsets_follows text (eager_canonical.mp read) fun value found accepted _ => eager_canonical.mpr accepted
    · exact finish composable_follows accepted

theorem canonical_form_escaped :
    RequestLineDirect.parseRequestLine (ascii "GET /a/%2e%2E/b%7e?q=%7E HTTP/1.1\r\n") =
        .ok ⟨ascii "get",ascii "/a/%2e%2E/b%7e?q=%7E",.http11,35⟩ ∧
      RequestTargetRules.normalizeRequestTarget ⟨ascii "get",ascii "/a/%2e%2E/b%7e?q=%7E",.http11,35⟩ =
        .ok ⟨.origin,none,none,ascii "/b~?q=~",ascii "/b~"⟩ ∧
      (CanonicalForm RequestTargetRules.normalizeRequestTarget ⟨ascii "get",ascii "/a/%2e%2E/b%7e?q=%7E",.http11,35⟩
          ⟨.origin,none,none,ascii "/b~?q=~",ascii "/b~"⟩ ↔
        ¬(RequestTargetRules.normalizeRequestTarget = RequestTargetTypedMatrix.normalizeRequestTarget ∧
          losesFinalSlash (targetPath ⟨ascii "get",ascii "/a/%2e%2E/b%7e?q=%7E",.http11,35⟩))) :=
  ⟨by decide +kernel,by decide +kernel,canonical_form_iff
    (show RequestLineDirect.parseRequestLine ∈ requestLineImplementations by simp [requestLineImplementations])
    (show RequestLineDirect.parseRequestLine (ascii "GET /a/%2e%2E/b%7e?q=%7E HTTP/1.1\r\n") = _ by decide +kernel)
    (show RequestTargetRules.normalizeRequestTarget ∈ requestTargetImplementations by simp [requestTargetImplementations])
    (show RequestTargetRules.normalizeRequestTarget _ = _ by decide +kernel) (.inl rfl)⟩

/-- Two dots behind a doubled slash: the typed matrix writes one slash where two are left. -/
theorem canonical_form_lost :
    ¬ ∀ parse ∈ requestLineImplementations, ∀ (input : List UInt8) (request : RequestLine), parse input = .ok request →
      ∀ normalizer ∈ requestTargetImplementations, ∀ target, normalizer request = .ok target →
        target.form = .origin ∨ target.form = .absolute → CanonicalForm normalizer request target := by
  intro all
  have form := all RequestLineDirect.parseRequestLine (by simp [requestLineImplementations])
    (ascii "GET /a//b/.. HTTP/1.1\r\n") ⟨ascii "get",ascii "/a//b/..",.http11,23⟩ (by decide +kernel)
    RequestTargetTypedMatrix.normalizeRequestTarget (by simp [requestTargetImplementations])
    ⟨.origin,none,none,ascii "/a/",ascii "/a/"⟩ (by decide +kernel) (.inl rfl)
  have text : PathText (ascii "/a//b/..") := ⟨by decide,by decide +kernel,by decide⟩
  have read : terseTarget (ascii "/a//b/..") = .ok (ascii "/a/",ascii "/a/") := by decide +kernel
  exact terse_loses text (by decide +kernel) read form.routing

end Canonical

end Polyguard.RequestTargetAgreement
