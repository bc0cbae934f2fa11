import Polyguard.Bytes.Slices
import Polyguard.Bytes.Ascii

/-! Textual IP addresses as the standard library reads them.
A reader takes a value off the front of a text; one that fails leaves the text
as it was. An address is accepted when its reader uses up the whole text. -/
namespace Polyguard.Address
open Ascii

abbrev Reader (α : Type) := List UInt8 → Option (α × List UInt8)

def toDigit (radix : Nat) (byte : UInt8) : Option Nat :=
  let value :=
    if isAsciiDigit byte then some (byte - 0x30).toNat
    else if 0x61 ≤ byte && byte ≤ 0x66 then some (byte - 0x61 + 10).toNat
    else if 0x41 ≤ byte && byte ≤ 0x46 then some (byte - 0x41 + 10).toNat
    else none
  value.filter (· < radix)

def readGivenChar (target : UInt8) : Reader Unit
  | [] => none
  | byte :: rest => if byte == target then some ((),rest) else none

/-- The inner value, behind a separator unless it is the first of its row. -/
def readSeparator {α : Type} (separator : UInt8) (index : Nat) (inner : Reader α) : Reader α := fun text =>
  if 0 < index then (readGivenChar separator text).bind fun read => inner read.2 else inner text

def readNumber (radix maxDigits : Nat) (allowZeroPrefix : Bool) (max : Nat) : Reader Nat := fun text =>
  let digits := text.takeWhile fun byte => (toDigit radix byte).isSome
  let value := digits.foldl (fun result byte => result * radix + (toDigit radix byte).getD 0) 0
  if digits.length > maxDigits || digits.isEmpty then none
  else if !allowZeroPrefix && digits.head? == some 0x30 && digits.length > 1 then none
  else if value ≤ max then some (value,text.dropWhile fun byte => (toDigit radix byte).isSome)
  else none

def readOctet (index : Nat) : Reader Nat := readSeparator 0x2e index (readNumber 10 3 false 255)

def readIpv4Addr : Reader (List Nat) := fun text => do
  let (one,text) ← readOctet 0 text
  let (two,text) ← readOctet 1 text
  let (three,text) ← readOctet 2 text
  let (four,text) ← readOctet 3 text
  some ([one,two,three,four],text)

/-- The two groups of an embedded IPv4 address. -/
def embeddedGroups : List Nat → List Nat
  | [one,two,three,four] => [one * 256 + two,three * 256 + four]
  | _ => []

/-- Up to `left` more groups of a row that holds `index` already; the flag tells an embedded IPv4 address. -/
def readGroups (index : Nat) : Nat → List UInt8 → (List Nat × Bool) × List UInt8
  | 0,text => (([],false),text)
  | left + 1,text =>
    -- an embedded address stands for two groups
    match if 0 < left then readSeparator 0x3a index readIpv4Addr text else none with
    | some (octets,rest) => ((embeddedGroups octets,true),rest)
    | none =>
      match readSeparator 0x3a index (readNumber 16 4 true 65535) text with
      | some (group,rest) =>
        let ((groups,ipv4),rest) := readGroups (index + 1) left rest
        ((group :: groups,ipv4),rest)
      | none => (([],false),text)

def readIpv6Addr : Reader (List Nat) := fun text =>
  let ((head,headIpv4),text) := readGroups 0 8 text
  if head.length = 8 then some (head,text)
  else if headIpv4 then none
  else do
    let (_,text) ← readGivenChar 0x3a text
    let (_,text) ← readGivenChar 0x3a text
    let ((tail,_),text) := readGroups 0 (8 - (head.length + 1)) text
    some (head ++ List.replicate (8 - (head.length + tail.length)) 0 ++ tail,text)

def parseWith {α : Type} (reader : Reader α) (text : List UInt8) : Option α :=
  match reader text with
  | some (value,[]) => some value
  | _ => none

/-- `Ipv4Addr::from_str`. -/
def parseIpv4 (text : List UInt8) : Option (List Nat) :=
  if text.length > 15 then none else parseWith readIpv4Addr text

/-- `Ipv6Addr::from_str`. -/
def parseIpv6 (text : List UInt8) : Option (List Nat) := parseWith readIpv6Addr text

def isIpv6 (text : List UInt8) : Bool := (parseIpv6 text).isSome

def isAddressByte (byte : UInt8) : Bool := isAsciiHexdigit byte || byte == 0x3a || byte == 0x2e

/-- What lies between a text and what a reader leaves of it. -/
def Used (text rest : List UInt8) : Prop := ∃ used, text = used ++ rest ∧ ∀ b ∈ used, isAddressByte b

theorem Used.refl (text : List UInt8) : Used text text := ⟨[],rfl,by simp⟩

theorem Used.trans {text middle rest : List UInt8} (first : Used text middle) (second : Used middle rest) :
    Used text rest := by
  obtain ⟨front,rfl,frontBytes⟩ := first
  obtain ⟨back,rfl,backBytes⟩ := second
  refine ⟨front ++ back,by simp,?_⟩
  intro b member
  rcases List.mem_append.mp member with inFront | inBack
  · exact frontBytes b inFront
  · exact backBytes b inBack

theorem toDigit_hex (radix : Nat) (byte : UInt8) (digit : (toDigit radix byte).isSome) : isAddressByte byte := by
  have hexadecimal : isAsciiHexdigit byte := by
    by_contra outside
    simp only [isAsciiHexdigit,Bool.or_eq_true,not_or] at outside
    simp [toDigit,outside.1.1,outside.1.2,outside.2] at digit
  simp [isAddressByte,hexadecimal]

theorem readGivenChar_used {target : UInt8} {text rest : List UInt8} (address : isAddressByte target)
    (read : readGivenChar target text = some ((),rest)) : Used text rest := by
  cases text with
  | nil => simp [readGivenChar] at read
  | cons byte bytes =>
    simp only [readGivenChar] at read
    split at read
    · rename_i same
      obtain rfl : byte = target := by simpa using same
      cases read
      exact ⟨[byte],rfl,by simpa using address⟩
    · cases read

theorem readSeparator_used {α : Type} {separator : UInt8} {index : Nat} {inner : Reader α}
    {text rest : List UInt8} {value : α} (address : isAddressByte separator)
    (innerUsed : ∀ text, inner text = some (value,rest) → Used text rest)
    (read : readSeparator separator index inner text = some (value,rest)) : Used text rest := by
  unfold readSeparator at read
  split at read
  · obtain ⟨⟨_,behind⟩,separated,inside⟩ := Option.bind_eq_some_iff.mp read
    exact (readGivenChar_used address separated).trans (innerUsed behind inside)
  · exact innerUsed text read

theorem readNumber_used {radix maxDigits max value : Nat} {allowZeroPrefix : Bool} {rest : List UInt8}
    (text : List UInt8) (read : readNumber radix maxDigits allowZeroPrefix max text = some (value,rest)) :
    Used text rest := by
  simp only [readNumber] at read
  split at read
  · cases read
  · split at read
    · cases read
    · split at read
      · obtain ⟨-,rfl⟩ := Prod.mk.inj (Option.some.inj read)
        refine ⟨_,List.takeWhile_append_dropWhile.symm,?_⟩
        intro b member
        exact toDigit_hex radix b (List.mem_takeWhile_imp (p := fun byte => (toDigit radix byte).isSome) member)
      · cases read

theorem readIpv4Addr_used {octets : List Nat} {rest : List UInt8} (text : List UInt8)
    (read : readIpv4Addr text = some (octets,rest)) : Used text rest := by
  have octet {index value : Nat} {before after : List UInt8} (took : readOctet index before = some (value,after)) :
      Used before after := readSeparator_used (by decide) (fun _ => readNumber_used _) took
  obtain ⟨⟨one,afterOne⟩,first,read⟩ := Option.bind_eq_some_iff.mp read
  obtain ⟨⟨two,afterTwo⟩,second,read⟩ := Option.bind_eq_some_iff.mp read
  obtain ⟨⟨three,afterThree⟩,third,read⟩ := Option.bind_eq_some_iff.mp read
  obtain ⟨⟨four,afterFour⟩,fourth,read⟩ := Option.bind_eq_some_iff.mp read
  obtain ⟨-,rfl⟩ := Prod.mk.inj (Option.some.inj read)
  exact (octet first).trans ((octet second).trans ((octet third).trans (octet fourth)))

theorem readGroups_used (left index : Nat) (text : List UInt8) : Used text (readGroups index left text).2 := by
  induction left generalizing index text with
  | zero => exact Used.refl text
  | succ left ih =>
    simp only [readGroups]
    split
    · rename_i octets rest embedded
      split at embedded
      · exact readSeparator_used (by decide) (fun _ => readIpv4Addr_used _) embedded
      · cases embedded
    · split
      · rename_i group rest number
        exact (readSeparator_used (by decide) (fun _ => readNumber_used _) number).trans (ih (index + 1) rest)
      · exact Used.refl text

theorem readIpv6Addr_used {groups : List Nat} {text rest : List UInt8}
    (read : readIpv6Addr text = some (groups,rest)) : Used text rest := by
  have front := readGroups_used 8 0 text
  simp only [readIpv6Addr] at read
  split at read
  · cases read
    exact front
  · split at read
    · cases read
    · obtain ⟨⟨_,afterOne⟩,first,read⟩ := Option.bind_eq_some_iff.mp read
      obtain ⟨⟨_,afterTwo⟩,second,read⟩ := Option.bind_eq_some_iff.mp read
      cases read
      exact front.trans ((readGivenChar_used (by decide) first).trans
        ((readGivenChar_used (by decide) second).trans (readGroups_used _ _ _)))

theorem isIpv6_bytes {text : List UInt8} (accepted : isIpv6 text) : ∀ b ∈ text, isAddressByte b := by
  obtain ⟨groups,parsed⟩ := Option.isSome_iff_exists.mp accepted
  unfold parseIpv6 parseWith at parsed
  split at parsed
  · rename_i value read
    obtain ⟨used,rfl,bytes⟩ := readIpv6Addr_used read
    simpa using bytes
  · cases parsed

@[simp] theorem isIpv6_nil : isIpv6 [] = false := by decide

example : parseIpv6 (ascii "2001:db8::192.0.2.1") = some [0x2001,0xdb8,0,0,0,0,0xc000,0x201] := by decide

end Polyguard.Address
