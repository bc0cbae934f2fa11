import Polyguard.Bytes.Address
import Polyguard.Bytes.Decimal
import Mathlib.Tactic.NormNum

/-! Display texts of IP addresses and their reading.
An IPv4 address is four decimal octets; an IPv6 address is lower-case hexadecimal
groups whose first longest run of at least two zeros is left out, with the last two
groups of an IPv4-mapped address as an IPv4 address. Reading a display text gives
the address it was written from. -/
namespace Polyguard.Address
open Ascii Decimal

/-- The digits of a number in lower case. -/
def render (radix number : Nat) : List UInt8 := (Nat.toDigits radix number).map Char.toUInt8

/-- The parts with a separator between each two of them. -/
def separated (separator : UInt8) : List (List UInt8) → List UInt8
  | [] => []
  | first :: rest => first ++ rest.flatMap (separator :: ·)

/-- `Ipv4Addr` as `Display` writes it. -/
def displayIpv4 (octets : List Nat) : List UInt8 := separated 0x2e (octets.map (render 10))

structure Span where
  start : Nat
  length : Nat
deriving DecidableEq

/-- One round of the search for the longest run of zeros: the longest so far and the current one. -/
def spanRound (spans : Span × Span) (indexed : Nat × Nat) : Span × Span :=
  let (longest,current) := spans
  if indexed.1 = 0 then
    let current : Span := ⟨if current.length = 0 then indexed.2 else current.start,current.length + 1⟩
    (if longest.length < current.length then current else longest,current)
  else (longest,⟨0,0⟩)

def longestZeros (segments : List Nat) : Span := (segments.zipIdx.foldl spanRound (⟨0,0⟩,⟨0,0⟩)).1

def groupsText (segments : List Nat) : List UInt8 := separated 0x3a (segments.map (render 16))

/-- The octets of an IPv4-mapped address (`to_ipv4_mapped`). -/
def mappedOctets : List Nat → Option (List Nat)
  | [0,0,0,0,0,65535,high,low] => some [high / 256,high % 256,low / 256,low % 256]
  | _ => none

/-- `Ipv6Addr` as `Display` writes it. -/
def displayIpv6 (segments : List Nat) : List UInt8 :=
  match mappedOctets segments with
  | some octets => ascii "::ffff:" ++ displayIpv4 octets
  | none =>
    let zeros := longestZeros segments
    if 1 < zeros.length then
      groupsText (segments.take zeros.start) ++ ascii "::" ++ groupsText (segments.drop (zeros.start + zeros.length))
    else groupsText segments

/-- An address as the octets or the groups that its type has room for. -/
inductive IpAddr where
  | v4 (octets : List Nat) (four : octets.length = 4) (small : ∀ octet ∈ octets, octet < 256)
  | v6 (segments : List Nat) (eight : segments.length = 8) (small : ∀ segment ∈ segments, segment < 65536)

def IpAddr.display : IpAddr → List UInt8
  | .v4 octets _ _ => displayIpv4 octets
  | .v6 segments _ _ => displayIpv6 segments

theorem toDigit_digitChar (digit : Fin 16) (radix : Nat) (small : digit.val < radix) :
    toDigit radix digit.val.digitChar.toUInt8 = some digit.val := by
  have table : ∀ digit : Fin 16, toDigit 16 digit.val.digitChar.toUInt8 = some digit.val := by decide +kernel
  have found := table digit
  unfold toDigit at found ⊢
  obtain ⟨same,-⟩ := Option.filter_eq_some_iff.mp found
  exact Option.filter_eq_some_iff.mpr ⟨same,by simpa using small⟩

theorem radix_induction {radix : Nat} (base : 1 < radix) {motive : Nat → Prop} (single : ∀ digit < radix, motive digit)
    (push : ∀ number, 0 < number → ∀ digit < radix, motive number → motive (radix * number + digit))
    (number : Nat) : motive number := by
  induction number using Nat.strongRecOn with
  | ind number ih =>
    by_cases small : number < radix
    · exact single number small
    · have smaller : number / radix < number := Nat.div_lt_self (by omega) base
      have positive : 0 < number / radix := Nat.div_pos (by omega) (by omega)
      have step := push (number / radix) positive (number % radix) (Nat.mod_lt _ (by omega)) (ih _ smaller)
      rwa [Nat.div_add_mod] at step

theorem render_single {radix digit : Nat} (small : digit < radix) : render radix digit = [digit.digitChar.toUInt8] := by
  rw [render,Nat.toDigits_of_lt_base small]
  rfl

theorem render_push {radix number digit : Nat} (base : 1 < radix) (positive : 0 < number) (small : digit < radix) :
    render radix (radix * number + digit) = render radix number ++ [digit.digitChar.toUInt8] := by
  rw [render,← Nat.toDigits_append_toDigits base positive small,List.map_append,Nat.toDigits_of_lt_base small]
  rfl

theorem render_ne_nil (radix number : Nat) : render radix number ≠ [] := by
  simp [render]

theorem render_length {radix number : Nat} (base : 1 < radix) {digits : Nat} (positive : 0 < digits)
    (small : number < radix ^ digits) : (render radix number).length ≤ digits := by
  rw [render,List.length_map]
  exact (Nat.length_toDigits_le_iff base positive).mpr small

section radix
variable {radix : Nat} (base : 1 < radix) (sixteen : radix ≤ 16)
include base sixteen

theorem render_digits (number : Nat) : ∀ b ∈ render radix number, (toDigit radix b).isSome := by
  have each {digit : Nat} (small : digit < radix) : (toDigit radix digit.digitChar.toUInt8).isSome := by
    rw [toDigit_digitChar ⟨digit,by omega⟩ radix small]
    rfl
  induction number using radix_induction base with
  | single digit small =>
    intro b member
    rw [render_single small,List.mem_singleton] at member
    subst member
    exact each small
  | push number positive digit small ih =>
    intro b member
    rw [render_push base positive small,List.mem_append,List.mem_singleton] at member
    rcases member with inside | rfl
    · exact ih b inside
    · exact each small

theorem render_value (number : Nat) :
    (render radix number).foldl (fun result byte => result * radix + (toDigit radix byte).getD 0) 0 = number := by
  induction number using radix_induction base with
  | single digit small =>
    rw [render_single small,List.foldl_cons,List.foldl_nil,toDigit_digitChar ⟨digit,by omega⟩ radix small]
    simp
  | push number positive digit small ih =>
    rw [render_push base positive small,List.foldl_append,ih,List.foldl_cons,List.foldl_nil,
      toDigit_digitChar ⟨digit,by omega⟩ radix small]
    simp [Nat.mul_comm]

theorem render_head {number : Nat} (leading : (render radix number).head? = some 0x30) : (render radix number).length ≤ 1 := by
  have zero {digit : Nat} (small : digit < 16) (same : digit.digitChar.toUInt8 = 0x30) : digit = 0 := by
    have table : ∀ digit : Fin 16, digit.val.digitChar.toUInt8 = 0x30 → digit.val = 0 := by decide +kernel
    exact table ⟨digit,small⟩ same
  have positive_head : ∀ number, 0 < number → (render radix number).head? ≠ some 0x30 := by
    intro number
    induction number using radix_induction base with
    | single digit small =>
      intro positive same
      rw [render_single small,List.head?_cons,Option.some.injEq] at same
      have := zero (by omega) same
      omega
    | push number above digit small ih =>
      intro _
      rw [render_push base above small,List.head?_append_of_ne_nil _ (render_ne_nil radix number)]
      exact ih above
  rcases Nat.eq_zero_or_pos number with rfl | positive
  · rw [render_single (by omega)]
    simp
  · exact absurd leading (positive_head number positive)

theorem readNumber_render {maxDigits max number : Nat} (allowZeroPrefix : Bool) (room : 0 < maxDigits)
    (fits : number < radix ^ maxDigits) (bounded : number ≤ max) {rest : List UInt8}
    (stops : ∀ b ∈ rest.head?, toDigit radix b = none) :
    readNumber radix maxDigits allowZeroPrefix max (render radix number ++ rest) = some (number,rest) := by
  have digits := render_digits base sixteen number
  have taken : (render radix number ++ rest).takeWhile (fun byte => (toDigit radix byte).isSome) = render radix number := by
    cases rest with
    | nil =>
      rw [List.append_nil]
      exact List.takeWhile_eq_self_iff.mpr digits
    | cons next rest => exact Slices.takeWhile_append_hit rest digits (by simp [stops next (by simp)])
  have dropped : (render radix number ++ rest).dropWhile (fun byte => (toDigit radix byte).isSome) = rest := by
    cases rest with
    | nil =>
      rw [List.append_nil]
      exact List.dropWhile_eq_nil_iff.mpr digits
    | cons next rest => exact Slices.dropWhile_append_hit rest digits (by simp [stops next (by simp)])
  have short := render_length base room fits
  simp only [readNumber,taken,dropped,render_value base sixteen]
  rw [if_neg (by simp [Nat.not_lt.mpr short,render_ne_nil]),if_neg,if_pos bounded]
  simp only [Bool.and_eq_true,beq_iff_eq,decide_eq_true_eq,not_and]
  intro leading
  have := render_head base sixteen leading.2
  omega

end radix

theorem dot_stops : toDigit 10 0x2e = none := by decide

theorem readGivenChar_cons (target : UInt8) (rest : List UInt8) : readGivenChar target (target :: rest) = some ((),rest) := by
  simp [readGivenChar]

theorem readOctet_render (index : Nat) {octet : Nat} (small : octet < 256) {rest : List UInt8}
    (stops : ∀ b ∈ rest.head?, toDigit 10 b = none) :
    readOctet index ((if 0 < index then [0x2e] else []) ++ (render 10 octet ++ rest)) = some (octet,rest) := by
  have number := readNumber_render (by decide) (by decide) false (by decide)
    (show octet < 10 ^ 3 by omega) (show octet ≤ 255 by omega) stops
  unfold readOctet readSeparator
  split
  · rw [List.singleton_append,readGivenChar_cons]
    exact number
  · exact number

theorem readIpv4Addr_display {octets : List Nat} (four : octets.length = 4) (small : ∀ octet ∈ octets, octet < 256)
    {rest : List UInt8} (stops : ∀ b ∈ rest.head?, toDigit 10 b = none) :
    readIpv4Addr (displayIpv4 octets ++ rest) = some (octets,rest) := by
  rcases octets with _ | ⟨one,_ | ⟨two,_ | ⟨three,_ | ⟨four',_ | ⟨fifth,more⟩⟩⟩⟩⟩ <;> simp only [List.length_cons,List.length_nil] at four <;>
    try omega
  have text : displayIpv4 [one,two,three,four'] ++ rest =
      render 10 one ++ (0x2e :: (render 10 two ++ (0x2e :: (render 10 three ++ (0x2e :: (render 10 four' ++ rest)))))) := by
    simp [displayIpv4,separated]
  have dotted (tail : List UInt8) : ∀ b ∈ ((0x2e : UInt8) :: tail).head?, toDigit 10 b = none := by
    simp [dot_stops]
  have first := readOctet_render 0 (small one (by simp)) (dotted (render 10 two ++ (0x2e :: (render 10 three ++ (0x2e :: (render 10 four' ++ rest))))))
  have second := readOctet_render 1 (small two (by simp)) (dotted (render 10 three ++ (0x2e :: (render 10 four' ++ rest))))
  have third := readOctet_render 2 (small three (by simp)) (dotted (render 10 four' ++ rest))
  have fourth := readOctet_render 3 (small four' (by simp)) stops
  simp only [Nat.lt_irrefl,if_false,List.nil_append,show 0 < 1 from by decide,show 0 < 2 from by decide,
    show 0 < 3 from by decide,if_true,List.singleton_append] at first second third fourth
  rw [text]
  simp only [readIpv4Addr,first,second,third,fourth,Option.bind_eq_bind,Option.bind_some]

theorem readIpv4Addr_dot {text : List UInt8} (absent : (0x2e : UInt8) ∉ text) : readIpv4Addr text = none := by
  rw [Option.eq_none_iff_forall_not_mem]
  rintro ⟨octets,rest⟩ read
  obtain ⟨⟨one,behind⟩,first,read⟩ := Option.bind_eq_some_iff.mp read
  obtain ⟨⟨two,_⟩,second,-⟩ := Option.bind_eq_some_iff.mp read
  obtain ⟨used,rfl,-⟩ := readNumber_used text first
  cases behind with
  | nil => cases second
  | cons next behind =>
    have here : next = 0x2e := by
      by_contra other
      simp [readOctet,readSeparator,readGivenChar,other] at second
    exact absent (by simp [here])

theorem readSeparator_dot {text : List UInt8} (absent : (0x2e : UInt8) ∉ text) (index : Nat) :
    readSeparator 0x3a index readIpv4Addr text = none := by
  unfold readSeparator
  split
  · rw [Option.bind_eq_none_iff]
    rintro ⟨_,behind⟩ read
    cases text with
    | nil => cases read
    | cons first rest =>
      simp only [readGivenChar] at read
      split at read
      · cases read
        exact readIpv4Addr_dot fun member => absent (List.mem_cons_of_mem first member)
      · cases read
  · exact readIpv4Addr_dot absent

end Polyguard.Address
