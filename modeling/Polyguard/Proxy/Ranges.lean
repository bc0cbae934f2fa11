import Polyguard.Proxy.Actions
import Polyguard.Bytes.Text

/-! The byte ranges of a file.
A range that is served lies inside the file, and the response holds exactly the bytes of it;
the three ways to write a range are read as what they ask for, clamped to the file. -/
namespace Polyguard.Proxy
open Ascii Slices Decimal

section Ranges

theorem range_inside {headers : HeaderBlock} {length start stop : Nat}
    (satisfied : requestedByteRange headers length = some (some (start,stop))) : start ≤ stop ∧ stop < length := by
  unfold requestedByteRange at satisfied
  split at satisfied
  · cases satisfied
  · simp only [Option.bind_eq_bind,Option.bind_eq_some_iff] at satisfied
    obtain ⟨value,-,range,-,found⟩ := satisfied
    split at found
    · cases found
    · rename_i single
      have filled : length ≠ 0 := by
        intro empty
        simp [empty] at single
      simp only [Option.bind_eq_some_iff] at found
      obtain ⟨⟨first,last⟩,-,found⟩ := found
      dsimp only at found
      split at found
      · simp only [Option.bind_eq_some_iff] at found
        obtain ⟨suffix,-,found⟩ := found
        split at found
        · cases found
        · cases found
          omega
      · simp only [Option.bind_eq_some_iff] at found
        obtain ⟨given,-,found⟩ := found
        have finish {upto : Nat} (bounded : upto ≤ length - 1)
            (found : (if length ≤ given ∨ upto < given then some none else some (some (given,upto))) = some (some (start,stop))) :
            start ≤ stop ∧ stop < length := by
          split at found
          · cases found
          · cases found
            omega
        split at found
        · exact finish (Nat.le_refl _) found
        · obtain ⟨upto,read,found⟩ := Option.bind_eq_some_iff.mp found
          obtain ⟨last,-,rfl⟩ := Option.map_eq_some_iff.mp read
          exact finish (Nat.min_le_right _ _) found
  · cases satisfied

/-- The digits of a number that fits 64 bits. -/
structure Number (digits : List UInt8) : Prop where
  given : digits ≠ []
  decimals : ∀ b ∈ digits, isAsciiDigit b
  fits : digitsValue digits ≤ u64Max

theorem Number.read {digits : List UInt8} (number : Number digits) : parseUnsigned u64Max digits = some (digitsValue digits) := by
  rw [parseUnsigned_digits number.given number.decimals,if_pos number.fits]

/-- The block has one range field, with this value. -/
def OneRange (headers : HeaderBlock) (value : List UInt8) : Prop :=
  ∃ field, headers.fields.filter (fun field => field.name == ascii "range") = [field] ∧ field.value = value

/-- What is asked of the two ends of a range. -/
def rangeBetween (first last : List UInt8) (length : Nat) : Option (Option (Nat × Nat)) :=
  if length = 0 then some none
  else if first.isEmpty then
    (parseUnsigned u64Max last).bind fun suffix => if suffix = 0 then some none else some (some (length - suffix,length - 1))
  else (parseUnsigned u64Max first).bind fun start =>
    if last.isEmpty then
      (some (length - 1)).bind fun stop => if length ≤ start ∨ stop < start then some none else some (some (start,stop))
    else ((parseUnsigned u64Max last).map (min · (length - 1))).bind fun stop =>
      if length ≤ start ∨ stop < start then some none else some (some (start,stop))

theorem oneRange_between {headers : HeaderBlock} {first last : List UInt8} (firstDigits : ∀ b ∈ first, isAsciiDigit b)
    (lastDigits : ∀ b ∈ last, isAsciiDigit b) (single : OneRange headers (ascii "bytes=" ++ (first ++ 0x2d :: last))) (length : Nat) :
    requestedByteRange headers length = rangeBetween first last length := by
  obtain ⟨field,only,value⟩ := single
  have digit (byte : UInt8) (digit : isAsciiDigit byte) : Text.isTight byte ∧ byte ≠ 0x2c ∧ byte ≠ 0x2d :=
    forall_byte (p := fun b => isAsciiDigit b → Text.isTight b ∧ b ≠ 0x2c ∧ b ≠ 0x2d) (by decide) byte digit
  have tight : ∀ b ∈ ascii "bytes=" ++ (first ++ 0x2d :: last), Text.isTight b := by
    intro b member
    rcases List.mem_append.mp member with unit | range
    · exact List.all_eq_true.mp (by decide : (ascii "bytes=").all Text.isTight) b unit
    · rcases List.mem_append.mp range with front | back
      · exact (digit b (firstDigits b front)).1
      · rcases List.mem_cons.mp back with rfl | behind
        · decide
        · exact (digit b (lastDigits b behind)).1
  have text : Utf8.fromUtf8 field.value = some (ascii "bytes=" ++ (first ++ 0x2d :: last)) := by
    rw [value,Utf8.fromUtf8]
    refine if_pos (Utf8.valid_of_ascii fun b member => ?_)
    exact decide_eq_true (Text.tight_bytes (tight b member)).2
  have trimmed : Text.trim (ascii "bytes=" ++ (first ++ 0x2d :: last)) = ascii "bytes=" ++ (first ++ 0x2d :: last) :=
    Text.trim_tight (fun b member => tight b (List.mem_of_mem_head? member)) fun b member => tight b (List.mem_of_mem_getLast? member)
  have stripped : stripPrefix (ascii "bytes=") (ascii "bytes=" ++ (first ++ 0x2d :: last)) = some (first ++ 0x2d :: last) := by
    rw [stripPrefix,if_pos (List.isPrefixOf_iff_prefix.mpr (List.prefix_append _ _)),List.drop_left]
  have single : (first ++ 0x2d :: last).contains 0x2c = false := by
    rw [List.contains_eq_mem,decide_eq_false_iff_not,List.mem_append,List.mem_cons]
    rintro (front | impossible | back)
    · exact (digit _ (firstDigits _ front)).2.1 rfl
    · cases impossible
    · exact (digit _ (lastDigits _ back)).2.1 rfl
  have parts : splitOnce 0x2d (first ++ 0x2d :: last) = some (first,last) :=
    splitOnce_first (fun member => (digit _ (firstDigits _ member)).2.2 rfl) last
  unfold requestedByteRange rangeBetween
  rw [only]
  dsimp only
  rw [text,Option.bind_eq_bind,Option.bind_some,trimmed,stripped,Option.bind_eq_bind,Option.bind_some,single,Bool.false_or,parts]
  by_cases empty : length = 0
  · rw [if_pos empty,if_pos (beq_iff_eq.mpr empty)]
  · rw [if_neg empty,if_neg (beq_iff_eq.not.mpr empty)]
    rfl

theorem Number.filled {digits : List UInt8} (number : Number digits) : digits.isEmpty = false :=
  List.isEmpty_eq_false_iff.mpr number.given

theorem range_closed {headers : HeaderBlock} {first last : List UInt8} (start : Number first) (stop : Number last)
    (single : OneRange headers (ascii "bytes=" ++ (first ++ 0x2d :: last))) (length : Nat) :
    requestedByteRange headers length = some (if 0 < length ∧ digitsValue first < length ∧ digitsValue first ≤ digitsValue last then
      some (digitsValue first,min (digitsValue last) (length - 1)) else none) := by
  rw [oneRange_between start.decimals stop.decimals single,rangeBetween,start.filled,start.read,stop.read,stop.filled]
  by_cases empty : length = 0
  · rw [if_pos empty,if_neg (by omega)]
  · rw [if_neg empty,if_neg Bool.false_ne_true,Option.bind_some,if_neg Bool.false_ne_true,Option.map_some,Option.bind_some]
    by_cases inside : digitsValue first < length ∧ digitsValue first ≤ digitsValue last
    · rw [if_neg (by omega),if_pos ⟨by omega,inside⟩]
    · rw [if_pos (by omega),if_neg fun all => inside all.2]

theorem range_open {headers : HeaderBlock} {first : List UInt8} (start : Number first)
    (single : OneRange headers (ascii "bytes=" ++ (first ++ [0x2d]))) (length : Nat) :
    requestedByteRange headers length = some (if 0 < length ∧ digitsValue first < length then
      some (digitsValue first,length - 1) else none) := by
  rw [oneRange_between start.decimals (fun _ member => absurd member List.not_mem_nil) single,rangeBetween,start.filled,start.read]
  by_cases empty : length = 0
  · rw [if_pos empty,if_neg (by omega)]
  · rw [if_neg empty,if_neg Bool.false_ne_true,Option.bind_some,List.isEmpty_nil,if_pos rfl,Option.bind_some]
    by_cases inside : digitsValue first < length
    · rw [if_neg (by omega),if_pos ⟨by omega,inside⟩]
    · rw [if_pos (by omega),if_neg fun both => inside both.2]

theorem range_suffix {headers : HeaderBlock} {last : List UInt8} (count : Number last)
    (single : OneRange headers (ascii "bytes=" ++ 0x2d :: last)) (length : Nat) :
    requestedByteRange headers length = some (if 0 < length ∧ 0 < digitsValue last then
      some (length - min (digitsValue last) length,length - 1) else none) := by
  rw [@oneRange_between headers [] last (fun _ member => absurd member List.not_mem_nil) count.decimals single,rangeBetween,count.read]
  by_cases empty : length = 0
  · rw [if_pos empty,if_neg (by omega)]
  · rw [if_neg empty,List.isEmpty_nil,if_pos rfl,Option.bind_some]
    by_cases zero : digitsValue last = 0
    · rw [if_pos zero,if_neg (by omega)]
    · rw [if_neg zero,if_pos ⟨by omega,by omega⟩,show length - min (digitsValue last) length = length - digitsValue last by omega]

variable (files : FileSystem)

/-- The path below the directory that a target names. -/
def staticRelative (mapping : StaticMapping) (route : RuntimeRoute) (target : NormalizedTarget) : Option (List UInt8) :=
  match mapping with
  | .root => some (trimStartSlashes target.routingPath)
  | .alias => (stripPrefix route.path target.routingPath).map trimStartSlashes

/-- The static action of the route finds a file with this body for the target. -/
def FindsFile (route : RuntimeRoute) (target : NormalizedTarget) (maxBytes : Nat) (budgets : Nat → Memory.Budget)
    (path body : List UInt8) (account : Account) : Prop :=
  ∃ directory mapping index tryFiles errorPage404, route.action = .files directory mapping index tryFiles errorPage404 ∧
    ∃ candidate, (staticRelative mapping route target).bind (staticCandidate directory) = some candidate ∧
      readStaticFile files directory candidate index tryFiles maxBytes budgets = .ok (some (path,body,account))

theorem serveStatic_found {route : RuntimeRoute} {target : NormalizedTarget} {method : List UInt8} {headers : HeaderBlock}
    {maxBytes : Nat} {budgets : Nat → Memory.Budget} {path body : List UInt8} {account : Account}
    (reads : method = ascii "get" ∨ method = ascii "head") (found : FindsFile files route target maxBytes budgets path body account) :
    serveStatic files route target method headers maxBytes budgets = .ok (fileResponse headers path body account) := by
  obtain ⟨directory,mapping,index,tryFiles,errorPage404,action,candidate,placed,read⟩ := found
  have allowed : (method == ascii "get" || method == ascii "head") = true := by
    rcases reads with rfl | rfl <;> decide
  unfold serveStatic
  rw [action]
  cases mapping
  all_goals
    dsimp only [staticRelative] at placed ⊢
    rw [placed]
    dsimp only
    rw [allowed,Bool.not_true,Bool.false_and,if_neg Bool.false_ne_true,read]
    rfl

/-- What a response holds of a file, by the range that was asked for. -/
def AnswersRange (headers : HeaderBlock) (body : List UInt8) (response : StaticResponse) : Prop :=
  match requestedByteRange headers body.length with
  | none => response.status = 200 ∧ response.body = body
  | some (some (start,stop)) => response.status = 206 ∧
      (∃ front back, body = front ++ response.body ++ back ∧ front.length = start ∧ start + response.body.length = stop + 1) ∧
      ⟨ascii "content-range",ascii "bytes " ++ decimal start ++ ascii "-" ++ decimal stop ++ ascii "/" ++ decimal body.length⟩ ∈
        response.headers
  | some none => response.status = 416 ∧ response.body = [] ∧
      ⟨ascii "content-range",ascii "bytes */" ++ decimal body.length⟩ ∈ response.headers

theorem fileResponse_answers (headers : HeaderBlock) (path body : List UInt8) (account : Account) :
    AnswersRange headers body (fileResponse headers path body account) := by
  unfold AnswersRange fileResponse
  cases asked : requestedByteRange headers body.length with
  | none => exact ⟨rfl,rfl⟩
  | some found =>
    cases found with
    | none => exact ⟨rfl,rfl,by simp⟩
    | some range =>
      obtain ⟨start,stop⟩ := range
      have inside := range_inside asked
      have split : body = body.take start ++ (body.drop start).take (stop - start + 1) ++ (body.drop start).drop (stop - start + 1) := by
        rw [List.append_assoc,List.take_append_drop,List.take_append_drop]
      refine ⟨rfl,⟨_,_,split,?_,?_⟩,by simp⟩
      · rw [List.length_take]
        omega
      · rw [List.length_take,List.length_drop]
        omega

/-- Ranges are inside the file and exact, and a file is served by them. -/
theorem byte_ranges_exact (headers : HeaderBlock) (length : Nat) :
    (∀ start stop, requestedByteRange headers length = some (some (start,stop)) → start ≤ stop ∧ stop < length) ∧
      (∀ first last, Number first → Number last → OneRange headers (ascii "bytes=" ++ (first ++ 0x2d :: last)) →
        requestedByteRange headers length = some (if 0 < length ∧ digitsValue first < length ∧ digitsValue first ≤ digitsValue last then
          some (digitsValue first,min (digitsValue last) (length - 1)) else none)) ∧
      (∀ first, Number first → OneRange headers (ascii "bytes=" ++ (first ++ [0x2d])) →
        requestedByteRange headers length = some (if 0 < length ∧ digitsValue first < length then
          some (digitsValue first,length - 1) else none)) ∧
      (∀ last, Number last → OneRange headers (ascii "bytes=" ++ 0x2d :: last) →
        requestedByteRange headers length = some (if 0 < length ∧ 0 < digitsValue last then
          some (length - min (digitsValue last) length,length - 1) else none)) ∧
      ∀ (files : FileSystem) (route : RuntimeRoute) (target : NormalizedTarget) (method : List UInt8) (maxBytes : Nat)
        (budgets : Nat → Memory.Budget) (path body : List UInt8) (account : Account),
        method = ascii "get" ∨ method = ascii "head" → FindsFile files route target maxBytes budgets path body account →
          ∃ response, serveStatic files route target method headers maxBytes budgets = .ok response ∧
            AnswersRange headers body response := by
  refine ⟨fun _ _ satisfied => range_inside satisfied,fun _ _ start stop single => range_closed start stop single length,
    fun _ start single => range_open start single length,fun _ count single => range_suffix count single length,?_⟩
  intro files route target method maxBytes budgets path body account reads found
  exact ⟨_,serveStatic_found files reads found,fileResponse_answers headers path body account⟩

theorem byte_ranges_exact_closed : requestedByteRange ⟨[⟨ascii "range",ascii "bytes=2-9"⟩],0⟩ 5 = some (some (2,4)) := by
  have two : Number (ascii "2") := ⟨by decide +kernel,by decide +kernel,by decide +kernel⟩
  have nine : Number (ascii "9") := ⟨by decide +kernel,by decide +kernel,by decide +kernel⟩
  exact (byte_ranges_exact ⟨[⟨ascii "range",ascii "bytes=2-9"⟩],0⟩ 5).2.1 _ _ two nine ⟨⟨ascii "range",ascii "bytes=2-9"⟩,by decide +kernel,by decide +kernel⟩

end Ranges
end Polyguard.Proxy
