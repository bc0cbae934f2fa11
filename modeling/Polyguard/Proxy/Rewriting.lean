import Polyguard.RequestTarget.Ordinary
import Polyguard.Proxy.Request

/-! Prefix rewriting and the canonical form of its targets.
What follows the matched prefix is part of a canonical path, so that only the replacement
and the place where the two meet decide whether the rewritten path is canonical. -/
namespace Polyguard.Proxy
open Ascii Slices RequestTarget RequestTargetAgreement RequestLineAgreement

section Escapes

/-- Two digits in upper case of a byte that stays encoded in a path. -/
def staysEncoded (high low : UInt8) : Bool :=
  let byte := TargetBytes.joinNibbles ((TargetBytes.hexValue high).getD 0) ((TargetBytes.hexValue low).getD 0)
  isUpperHexdigit high && isUpperHexdigit low && !TargetBytes.isUnreserved byte && !(byte == 0x2f || byte == 0x5c) &&
    !(decide (byte ≤ 31) || byte == 127)

/-- The two bytes behind a percent sign are those of a canonical escape. -/
def escapeStarts : List UInt8 → Bool
  | high :: low :: _ => staysEncoded high low
  | _ => false

/-- Every percent sign in the front starts a canonical escape, which may end behind it. -/
def escapesIn : List UInt8 → List UInt8 → Bool
  | [],_ => true
  | byte :: front,rest => (byte != 0x25 || escapeStarts (front ++ rest)) && escapesIn front rest

theorem escapesIn_append (front middle rest : List UInt8) :
    escapesIn (front ++ middle) rest = (escapesIn front (middle ++ rest) && escapesIn middle rest) := by
  induction front with
  | nil => rfl
  | cons byte front ih => rw [List.cons_append,escapesIn,escapesIn,ih,List.append_assoc,Bool.and_assoc]

theorem escapesIn_spell {part : Token} (spoken : Spoken true part) (rest : List UInt8) : escapesIn (spell part) rest := by
  cases part with
  | literal byte =>
    have plain : (byte != 0x25) = true := bne_iff_ne.mpr spoken
    rw [spell,escapesIn,plain]
    rfl
  | encoded byte =>
    rw [spell]
    split
    · rename_i unreserved
      rw [escapesIn,bne_iff_ne.mpr (unreserved_plain byte unreserved)]
      rfl
    · rename_i reserved
      have table := forall_byte (p := fun byte => (!TargetBytes.isUnreserved byte && !(byte == 0x2f || byte == 0x5c) &&
        !(decide (byte ≤ 31) || byte == 127)) = true →
          (staysEncoded (TargetBytes.hexDigit (byte >>> 4)) (TargetBytes.hexDigit (byte &&& 0x0f)) &&
            (TargetBytes.hexDigit (byte >>> 4) != 0x25 && TargetBytes.hexDigit (byte &&& 0x0f) != 0x25)) = true) (by decide) byte
      have open' : (byte == 0x2f || byte == 0x5c) = false := by simpa using spoken.1
      rw [Bool.eq_false_iff.mpr reserved,open',spoken.2] at table
      simp only [Bool.and_eq_true] at table
      obtain ⟨stays,first,second⟩ := table ⟨⟨rfl,rfl⟩,rfl⟩
      rw [escapesIn,escapesIn,escapesIn,first,second]
      exact Bool.and_eq_true_iff.mpr ⟨stays,rfl⟩

theorem escapesIn_spelled {text : List UInt8} (spelled : Spelled true text) : escapesIn text [] := by
  obtain ⟨parts,spoken,rfl⟩ := spelled
  induction parts with
  | nil => rfl
  | cons part parts ih =>
    rw [spelling_cons,escapesIn_append,escapesIn_spell (spoken part List.mem_cons_self),Bool.true_and]
    exact ih fun other member => spoken other (List.mem_cons_of_mem part member)

end Escapes

section Rewriting
variable {target : NormalizedTarget} {route : RuntimeRoute} {replacement rest query : List UInt8}

theorem runtimePathMatches_rest {path : List UInt8} (rooted : startsWith 0x2f path) (matched : runtimePathMatches route path) :
    ∃ rest, path = route.path ++ rest := by
  unfold runtimePathMatches at matched
  split at matched
  · exact ⟨[],by rw [List.append_nil]; exact beq_iff_eq.mp matched⟩
  · obtain ⟨rest,same⟩ := List.isPrefixOf_iff_prefix.mp matched
    exact ⟨rest,same.symm⟩
  · rw [Bool.or_eq_true,Bool.or_eq_true] at matched
    rcases matched with (every | whole) | below
    · obtain ⟨rest,same⟩ := List.head?_eq_some_iff.mp (beq_iff_eq.mp rooted)
      exact ⟨rest,by rw [beq_iff_eq.mp every,same]; rfl⟩
    · exact ⟨[],by rw [List.append_nil]; exact beq_iff_eq.mp whole⟩
    · unfold stripPrefix at below
      split at below
      · rename_i front
        obtain ⟨rest,same⟩ := List.isPrefixOf_iff_prefix.mp front
        exact ⟨rest,same.symm⟩
      · cases below

/-- What rewriting is to give: the target with the replacement in origin form and canonical, or a failure for its length. -/
def KeepsCanonical (target : NormalizedTarget) (matched replacement rest query : List UInt8) : Prop :=
  match rewriteTarget target matched (some replacement) with
  | .error fault => fault = .internal ∧ maxRequestLineBytes < (replacement ++ rest).length
  | .ok rewritten => rewritten.form = .origin ∧ rewritten.routingPath = replacement ++ rest ∧
      rewritten.pathAndQuery = rewritten.routingPath ++ query ∧ rewritten.pathAndQuery.length ≤ maxRequestLineBytes ∧
      (∀ segment ∈ rewritten.routingPath.splitOn 0x2f, isDotSegment segment = false) ∧ escapesIn rewritten.routingPath []

/-- The replacement is canonical up to the segment and the escape that it leaves open, these are closed well by the rest of the
path, and the query still fits. -/
structure SeamFits (replacement rest query : List UInt8) : Prop where
  bounded : replacement.length + rest.length + query.length ≤ maxRequestLineBytes
  front : ∀ segment ∈ (replacement.splitOn 0x2f).dropLast, isDotSegment segment = false
  seam : isDotSegment ((replacement.splitOn 0x2f).getLastD [] ++ (rest.splitOn 0x2f).headD []) = false
  escapes : escapesIn replacement rest

theorem stripPrefix_append (front back : List UInt8) : stripPrefix front (front ++ back) = some back := by
  rw [stripPrefix,if_pos (List.isPrefixOf_iff_prefix.mpr (List.prefix_append _ _)),List.drop_left]

theorem rest_settled (settled : SettledTarget target) {matched : List UInt8} (split : target.routingPath = matched ++ rest) :
    (∀ segment ∈ (rest.splitOn 0x2f).tail, isDotSegment segment = false) ∧ escapesIn rest [] := by
  obtain ⟨segments,some,each,joins⟩ := settled.path
  constructor
  · have whole := splitOn_joined some each
    rw [← joins,split,splitOn_append] at whole
    intro segment member
    have among : segment ∈ [] :: segments := whole ▸ List.mem_append_right _ (List.mem_cons_of_mem _ member)
    rcases List.mem_cons.mp among with rfl | inside
    · rfl
    · exact (each segment inside).ordinary
  · have whole := escapesIn_spelled (joined_spelled each)
    rw [← joins,split,escapesIn_append,Bool.and_eq_true] at whole
    exact whole.2

theorem keepsCanonical_iff (settled : SettledTarget target) {matched : List UInt8} (split : target.routingPath = matched ++ rest)
    (behind : target.pathAndQuery = target.routingPath ++ query) (configured : validConfigPath replacement) :
    KeepsCanonical target matched replacement rest query ↔
      maxRequestLineBytes < (replacement ++ rest).length ∨ SeamFits replacement rest query := by
  have slashed : startsWith 0x2f (replacement ++ rest) = true := by
    unfold validConfigPath at configured
    simp only [Bool.and_eq_true] at configured
    have head := configured.1.2
    unfold startsWith at head ⊢
    rw [beq_iff_eq] at head ⊢
    obtain ⟨back,same⟩ := List.head?_eq_some_iff.mp head
    rw [same]
    rfl
  obtain ⟨dots,escapes⟩ := rest_settled settled split
  unfold KeepsCanonical rewriteTarget
  rw [behind,stripPrefix_append,split,stripPrefix_append]
  dsimp only
  rw [slashed,Bool.not_true,Bool.false_or]
  by_cases long : maxRequestLineBytes < (replacement ++ rest).length
  · rw [if_pos (decide_eq_true long)]
    exact iff_of_true ⟨rfl,long⟩ (.inl long)
  · rw [if_neg (by simpa using long)]
    dsimp only
    constructor
    · rintro ⟨-,-,-,bounded,segments,whole⟩
      rw [splitOn_append] at segments
      rw [escapesIn_append,List.append_nil,Bool.and_eq_true] at whole
      rw [List.length_append,List.length_append] at bounded
      exact .inr ⟨bounded,fun segment member => segments segment (List.mem_append_left _ member),
        segments _ (List.mem_append_right _ List.mem_cons_self),whole.1⟩
    · rintro (impossible | fits)
      · exact absurd impossible long
      · refine ⟨rfl,rfl,rfl,?_,?_,?_⟩
        · rw [List.length_append,List.length_append]
          exact fits.bounded
        · rw [splitOn_append]
          intro segment member
          rcases List.mem_append.mp member with front | back
          · exact fits.front segment front
          · rcases List.mem_cons.mp back with rfl | inside
            · exact fits.seam
            · exact dots segment inside
        · rw [escapesIn_append,List.append_nil,fits.escapes,escapes]
          rfl

/-- A rewritten target is canonical, or refused for its length, exactly when the rest of the path fits the replacement. -/
theorem rewriting_canonical_iff {parse : List UInt8 → Result RequestLine} (registered : parse ∈ requestLineImplementations)
    {input : List UInt8} {request : RequestLine} (parsed : parse input = .ok request)
    {normalizer : RequestLine → Result NormalizedTarget} (implemented : normalizer ∈ requestTargetImplementations)
    (accepted : normalizer request = .ok target) (pathed : target.form = .origin ∨ target.form = .absolute)
    (matched : runtimePathMatches route target.routingPath) (configured : validConfigPath replacement) :
    ∃ rest query, target.routingPath = route.path ++ rest ∧ target.pathAndQuery = target.routingPath ++ query ∧
      (KeepsCanonical target route.path replacement rest query ↔
        maxRequestLineBytes < (replacement ++ rest).length ∨ SeamFits replacement rest query) := by
  have produced := produced_of_parse registered parsed
  have settled := normalized_settled implemented produced accepted pathed
  obtain ⟨rest,split⟩ := runtimePathMatches_rest (normalized_routed implemented produced accepted pathed) matched
  obtain ⟨query,behind⟩ := settled.query
  exact ⟨rest,query,split,behind,keepsCanonical_iff settled split behind configured⟩

def samplePrefix : RuntimeRoute :=
  ⟨actionId 0,ascii "*",ascii "/a",.pathPrefix,[],[],0,[],[],[],.proxy (ascii "all") none none,0⟩

theorem rewriting_canonical_below : KeepsCanonical ⟨.origin,none,none,ascii "/a/b?c",ascii "/a/b"⟩ (ascii "/a") (ascii "/x") (ascii "/b")
    (ascii "?c") := by
  obtain ⟨rest,query,split,behind,holds⟩ := @rewriting_canonical_iff ⟨.origin,none,none,ascii "/a/b?c",ascii "/a/b"⟩ samplePrefix (ascii "/x")
    RequestLineDirect.parseRequestLine (by simp [requestLineImplementations]) (ascii "GET /a/b?c HTTP/1.1\r\n")
    ⟨ascii "get",ascii "/a/b?c",.http11,21⟩ (by decide +kernel) RequestTargetRules.normalizeRequestTarget
    (by simp [requestTargetImplementations]) (by decide +kernel) (.inl rfl) (by decide +kernel) (by decide +kernel)
  obtain rfl : rest = ascii "/b" := (List.append_cancel_left ((by decide +kernel : ascii "/a" ++ ascii "/b" = ascii "/a/b").trans split)).symm
  obtain rfl : query = ascii "?c" := (List.append_cancel_left ((by decide +kernel : ascii "/a/b" ++ ascii "?c" = ascii "/a/b?c").trans behind)).symm
  exact holds.mpr (.inr ⟨by decide,by decide +kernel,by decide +kernel,by decide +kernel⟩)

/-- The prefix ends inside of a segment, and the replacement makes its rest a segment of dots. -/
theorem rewriting_opens_dots :
    RequestLineDirect.parseRequestLine (ascii "GET /a.. HTTP/1.1\r\n") = .ok ⟨ascii "get",ascii "/a..",.http11,19⟩ ∧
      RequestTargetRules.normalizeRequestTarget ⟨ascii "get",ascii "/a..",.http11,19⟩ = .ok ⟨.origin,none,none,ascii "/a..",ascii "/a.."⟩ ∧
      runtimePathMatches samplePrefix (ascii "/a..") ∧ validConfigPath (ascii "/x/") ∧
      rewriteTarget ⟨.origin,none,none,ascii "/a..",ascii "/a.."⟩ (ascii "/a") (some (ascii "/x/")) =
        .ok ⟨.origin,none,none,ascii "/x/..",ascii "/x/.."⟩ ∧
      ¬ KeepsCanonical ⟨.origin,none,none,ascii "/a..",ascii "/a.."⟩ (ascii "/a") (ascii "/x/") (ascii "..") [] := by
  have rewritten : rewriteTarget ⟨.origin,none,none,ascii "/a..",ascii "/a.."⟩ (ascii "/a") (some (ascii "/x/")) =
      .ok ⟨.origin,none,none,ascii "/x/..",ascii "/x/.."⟩ := by decide +kernel
  refine ⟨by decide +kernel,by decide +kernel,by decide +kernel,by decide +kernel,rewritten,?_⟩
  unfold KeepsCanonical
  rw [rewritten]
  rintro ⟨-,-,-,-,segments,-⟩
  exact absurd (segments (ascii "..") (by decide +kernel)) (by decide)

end Rewriting
end Polyguard.Proxy
