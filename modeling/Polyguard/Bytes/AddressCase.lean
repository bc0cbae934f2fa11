import Polyguard.Bytes.Address

/-! Textual addresses in either case.
A digit of an address has one value in both cases, and no separator has a case, so that
every reader takes as much off a text in lowercase as off the text itself. -/
namespace Polyguard.Address
open Ascii

def lowered (text : List UInt8) : List UInt8 := text.map toAsciiLowercase

/-- The reader takes the same value off the front of a text in lowercase. -/
def Caseless {α : Type} (reader : Reader α) : Prop := ∀ text, reader (lowered text) = (reader text).map (Prod.map id lowered)

theorem toDigit_lower (radix : Nat) (byte : UInt8) : toDigit radix (toAsciiLowercase byte) = toDigit radix byte := by
  have table := forall_byte (p := fun b =>
    (if isAsciiDigit (toAsciiLowercase b) then some (toAsciiLowercase b - 0x30).toNat
      else if 0x61 ≤ toAsciiLowercase b && toAsciiLowercase b ≤ 0x66 then some (toAsciiLowercase b - 0x61 + 10).toNat
      else if 0x41 ≤ toAsciiLowercase b && toAsciiLowercase b ≤ 0x46 then some (toAsciiLowercase b - 0x41 + 10).toNat
      else none) =
    (if isAsciiDigit b then some (b - 0x30).toNat
      else if 0x61 ≤ b && b ≤ 0x66 then some (b - 0x61 + 10).toNat
      else if 0x41 ≤ b && b ≤ 0x46 then some (b - 0x41 + 10).toNat
      else none)) (by decide) byte
  unfold toDigit
  rw [table]

theorem caseless_bind {α β : Type} {first : Reader α} {next : α → Reader β} (head : Caseless first)
    (tail : ∀ value, Caseless (next value)) : Caseless fun text => (first text).bind fun read => next read.1 read.2 := by
  intro text
  dsimp only
  rw [head text]
  cases first text with
  | none => rfl
  | some read => exact tail read.1 read.2

theorem caseless_pure {α : Type} (value : α) : Caseless fun text => some (value,text) := fun _ => rfl

theorem caseless_char {target : UInt8} (plain : ∀ byte, toAsciiLowercase byte = target ↔ byte = target) :
    Caseless (readGivenChar target) := by
  intro text
  cases text with
  | nil => rfl
  | cons byte rest =>
    change (if toAsciiLowercase byte == target then _ else _) = Option.map _ (if byte == target then _ else _)
    by_cases same : byte = target
    · rw [if_pos (beq_iff_eq.mpr ((plain byte).mpr same)),if_pos (beq_iff_eq.mpr same)]
      rfl
    · rw [if_neg (by rw [beq_iff_eq,plain]; exact same),if_neg (by rw [beq_iff_eq]; exact same)]
      rfl

theorem colon_caseless (byte : UInt8) : toAsciiLowercase byte = 0x3a ↔ byte = 0x3a :=
  forall_byte (p := fun b => toAsciiLowercase b = 0x3a ↔ b = 0x3a) (by decide) byte

theorem dot_caseless (byte : UInt8) : toAsciiLowercase byte = 0x2e ↔ byte = 0x2e :=
  forall_byte (p := fun b => toAsciiLowercase b = 0x2e ↔ b = 0x2e) (by decide) byte

theorem zero_caseless (byte : UInt8) : toAsciiLowercase byte = 0x30 ↔ byte = 0x30 :=
  forall_byte (p := fun b => toAsciiLowercase b = 0x30 ↔ b = 0x30) (by decide) byte

theorem caseless_separator {α : Type} {separator : UInt8} (plain : ∀ byte, toAsciiLowercase byte = separator ↔ byte = separator)
    (index : Nat) {inner : Reader α} (inside : Caseless inner) : Caseless (readSeparator separator index inner) := by
  intro text
  unfold readSeparator
  split
  · exact caseless_bind (caseless_char plain) (fun _ => inside) text
  · exact inside text

theorem caseless_number (radix maxDigits : Nat) (allowZeroPrefix : Bool) (max : Nat) :
    Caseless (readNumber radix maxDigits allowZeroPrefix max) := by
  intro text
  have digit : ((fun byte => (toDigit radix byte).isSome) ∘ toAsciiLowercase) = fun byte => (toDigit radix byte).isSome :=
    funext fun byte => congrArg Option.isSome (toDigit_lower radix byte)
  have value (digits : List UInt8) : (lowered digits).foldl (fun result byte => result * radix + (toDigit radix byte).getD 0) 0 =
      digits.foldl (fun result byte => result * radix + (toDigit radix byte).getD 0) 0 := by
    rw [lowered,List.foldl_map]
    simp only [toDigit_lower]
  have zero (digits : List UInt8) : ((lowered digits).head? == some 0x30) = (digits.head? == some 0x30) := by
    cases digits with
    | nil => rfl
    | cons first digits =>
      rw [lowered,List.map_cons,List.head?_cons,List.head?_cons,Bool.eq_iff_iff,beq_iff_eq,beq_iff_eq,Option.some_inj,
        Option.some_inj,zero_caseless]
  unfold readNumber
  have taken : (lowered text).takeWhile (fun byte => (toDigit radix byte).isSome) =
      lowered (text.takeWhile fun byte => (toDigit radix byte).isSome) := by rw [lowered,List.takeWhile_map,digit]; rfl
  have left : (lowered text).dropWhile (fun byte => (toDigit radix byte).isSome) =
      lowered (text.dropWhile fun byte => (toDigit radix byte).isSome) := by rw [lowered,List.dropWhile_map,digit]; rfl
  dsimp only
  rw [taken,left,value,zero]
  generalize text.takeWhile (fun byte => (toDigit radix byte).isSome) = digits
  have length : (lowered digits).length = digits.length := List.length_map _
  have empty : (lowered digits).isEmpty = digits.isEmpty := by cases digits <;> rfl
  rw [length,empty]
  split
  · rfl
  · split
    · rfl
    · split <;> rfl

theorem caseless_octet (index : Nat) : Caseless (readOctet index) :=
  caseless_separator dot_caseless index (caseless_number 10 3 false 255)

theorem caseless_ipv4 : Caseless readIpv4Addr :=
  caseless_bind (caseless_octet 0) fun one => caseless_bind (caseless_octet 1) fun two =>
    caseless_bind (caseless_octet 2) fun three => caseless_bind (caseless_octet 3) fun four => caseless_pure [one,two,three,four]

theorem readGroups_lower (left : Nat) : ∀ (index : Nat) (text : List UInt8),
    readGroups index left (lowered text) = Prod.map id lowered (readGroups index left text) := by
  induction left with
  | zero => exact fun _ _ => rfl
  | succ left ih =>
    intro index text
    have embedded : (if 0 < left then readSeparator 0x3a index readIpv4Addr (lowered text) else none) =
        (if 0 < left then readSeparator 0x3a index readIpv4Addr text else none).map (Prod.map id lowered) := by
      split
      · exact caseless_separator colon_caseless index caseless_ipv4 text
      · rfl
    have group := caseless_separator colon_caseless index (caseless_number 16 4 true 65535) text
    rw [readGroups,readGroups,embedded,group]
    cases if 0 < left then readSeparator 0x3a index readIpv4Addr text else none with
    | some read => rfl
    | none =>
      cases readSeparator 0x3a index (readNumber 16 4 true 65535) text with
      | none => rfl
      | some read =>
        obtain ⟨value,rest⟩ := read
        dsimp only [Option.map_none,Option.map_some,Prod.map]
        rw [id_eq,ih (index + 1) rest]
        rfl

theorem caseless_ipv6 : Caseless readIpv6Addr := by
  intro text
  have colon := caseless_char colon_caseless
  unfold readIpv6Addr
  rw [readGroups_lower 8 0 text]
  obtain ⟨⟨head,headIpv4⟩,behind⟩ := readGroups 0 8 text
  dsimp only [Prod.map]
  rw [id_eq]
  dsimp only
  split
  · rfl
  · split
    · rfl
    · have groups : Caseless fun rest => some (head ++ List.replicate
          (8 - (head.length + (readGroups 0 (8 - (head.length + 1)) rest).1.1.length)) 0 ++
            (readGroups 0 (8 - (head.length + 1)) rest).1.1,(readGroups 0 (8 - (head.length + 1)) rest).2) := by
        intro rest
        dsimp only
        rw [readGroups_lower (8 - (head.length + 1)) 0 rest]
        rfl
      exact caseless_bind colon (fun _ => caseless_bind colon fun _ => groups) behind

theorem isIpv6_lower (text : List UInt8) : isIpv6 (lowered text) = isIpv6 text := by
  unfold isIpv6 parseIpv6 parseWith
  rw [caseless_ipv6 text]
  cases readIpv6Addr text with
  | none => rfl
  | some read =>
    obtain ⟨value,rest⟩ := read
    cases rest <;> rfl

end Polyguard.Address
