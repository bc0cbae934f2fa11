import Polyguard.Bytes.Ascii
import Mathlib.Data.List.Induction
import Mathlib.Tactic.Common

/-! Decimal texts: rendering a number and reading an unsigned integer back.
A text of digits is the rendering of its value exactly when it has no leading zero. -/
namespace Polyguard.Decimal
open Ascii

/-- The decimal rendering of a number (`to_string`). -/
def decimal (number : Nat) : List UInt8 := (Nat.toDigits 10 number).map Char.toUInt8

def pushDigit (value : Nat) (digit : UInt8) : Nat := 10 * value + (digit - 0x30).toNat

/-- The number that a text of digits denotes. -/
def digitsValue (digits : List UInt8) : Nat := digits.foldl pushDigit 0

/-- `str::parse` into an unsigned integer whose greatest value is `max`. -/
def parseUnsigned (max : Nat) (text : List UInt8) : Option Nat :=
  let digits := if text.head? == some 0x2b then text.drop 1 else text
  if digits.isEmpty || !digits.all isAsciiDigit then none
  else if digitsValue digits ≤ max then some (digitsValue digits) else none

def u16Max : Nat := 65535

def u32Max : Nat := 4294967295

theorem digitChar_byte (n : Fin 10) :
    isAsciiDigit n.val.digitChar.toUInt8 ∧ (n.val.digitChar.toUInt8 - 0x30).toNat = n.val ∧
      (n.val.digitChar.toUInt8 = 0x30 → n.val = 0) := by
  revert n
  decide

theorem digit_byte (byte : UInt8) (digit : isAsciiDigit byte) :
    (byte - 0x30).toNat < 10 ∧ (byte - 0x30).toNat.digitChar.toUInt8 = byte := by
  revert digit
  exact forall_byte (p := fun b => isAsciiDigit b →
    (b - 0x30).toNat < 10 ∧ (b - 0x30).toNat.digitChar.toUInt8 = b) (by decide) byte

theorem decimal_of_lt {number : Nat} (small : number < 10) : decimal number = [number.digitChar.toUInt8] := by
  rw [decimal,Nat.toDigits_of_lt_base small]
  rfl

theorem decimal_push {number digit : Nat} (positive : 0 < number) (small : digit < 10) :
    decimal (10 * number + digit) = decimal number ++ [digit.digitChar.toUInt8] := by
  rw [decimal,← Nat.toDigits_append_toDigits (by decide) positive small,List.map_append,
    Nat.toDigits_of_lt_base small]
  rfl

/-- Numbers by their decimal digits: one digit, or a positive number and one more digit. -/
theorem digit_induction {motive : Nat → Prop} (single : ∀ n : Fin 10, motive n.val)
    (push : ∀ number, 0 < number → ∀ digit : Fin 10, motive number → motive (10 * number + digit.val))
    (number : Nat) : motive number := by
  induction number using Nat.strongRecOn with
  | ind number ih =>
    by_cases small : number < 10
    · exact single ⟨number,small⟩
    · have step := push (number / 10) (by omega) ⟨number % 10,by omega⟩ (ih (number / 10) (by omega))
      rwa [show 10 * (number / 10) + number % 10 = number by omega] at step

theorem decimal_digits (number : Nat) : ∀ b ∈ decimal number, isAsciiDigit b := by
  induction number using digit_induction with
  | single n => simpa [decimal_of_lt n.isLt] using (digitChar_byte n).1
  | push number positive digit ih =>
    intro b member
    rw [decimal_push positive digit.isLt,List.mem_append,List.mem_singleton] at member
    rcases member with inside | rfl
    · exact ih b inside
    · exact (digitChar_byte digit).1

theorem decimal_ne_nil (number : Nat) : decimal number ≠ [] := by
  simp [decimal]

theorem digitsValue_push (digits : List UInt8) (digit : UInt8) :
    digitsValue (digits ++ [digit]) = 10 * digitsValue digits + (digit - 0x30).toNat := by
  simp [digitsValue,pushDigit]

theorem digitsValue_decimal (number : Nat) : digitsValue (decimal number) = number := by
  induction number using digit_induction with
  | single n => simpa [decimal_of_lt n.isLt,digitsValue,pushDigit] using (digitChar_byte n).2.1
  | push number positive digit ih =>
    rw [decimal_push positive digit.isLt,digitsValue_push,ih,(digitChar_byte digit).2.1]

theorem decimal_head {number : Nat} (positive : 0 < number) : (decimal number).head? ≠ some 0x30 := by
  induction number using digit_induction with
  | single n =>
    intro zero
    rw [decimal_of_lt n.isLt,List.head?_cons,Option.some.injEq] at zero
    have := (digitChar_byte n).2.2 zero
    omega
  | push number above digit ih =>
    rw [decimal_push above digit.isLt,List.head?_append_of_ne_nil _ (decimal_ne_nil number)]
    exact ih above

theorem pushDigit_mono (digits : List UInt8) {value : Nat} (positive : 0 < value) :
    0 < digits.foldl pushDigit value := by
  induction digits generalizing value with
  | nil => exact positive
  | cons digit digits ih => exact ih (by unfold pushDigit; omega)

theorem digitsValue_pos {digits : List UInt8} (some : digits ≠ []) (decimals : ∀ b ∈ digits, isAsciiDigit b)
    (leading : digits.head? ≠ .some 0x30) : 0 < digitsValue digits := by
  cases digits with
  | nil => exact absurd rfl some
  | cons digit digits =>
    apply pushDigit_mono digits
    have nonzero : digit ≠ 0x30 := by simpa using leading
    have recovered := (digit_byte digit (decimals digit (by simp))).2
    unfold pushDigit
    by_contra zero
    rw [show (digit - 0x30).toNat = 0 by omega] at recovered
    exact nonzero (recovered.symm.trans (by decide))

theorem decimal_digitsValue {digits : List UInt8} (some : digits ≠ []) (decimals : ∀ b ∈ digits, isAsciiDigit b)
    (leading : digits.head? ≠ .some 0x30) : decimal (digitsValue digits) = digits := by
  induction digits using List.reverseRecOn with
  | nil => exact absurd rfl some
  | append_singleton digits digit ih =>
    obtain ⟨small,recovered⟩ := digit_byte digit (decimals digit (by simp))
    rw [digitsValue_push]
    cases digits with
    | nil =>
      rw [show digitsValue [] = 0 from rfl,Nat.mul_zero,Nat.zero_add,decimal_of_lt small,recovered,List.nil_append]
    | cons first rest =>
      have inner : ∀ b ∈ first :: rest, isAsciiDigit b := fun b member => decimals b (by simp only [List.mem_append,member,true_or])
      have front : (first :: rest).head? ≠ .some 0x30 := by simpa using leading
      rw [decimal_push (digitsValue_pos (by simp) inner front) small,ih (by simp) inner front,recovered]

theorem decimal_eq_iff {digits : List UInt8} (some : digits ≠ []) (decimals : ∀ b ∈ digits, isAsciiDigit b)
    (positive : 0 < digitsValue digits) : decimal (digitsValue digits) = digits ↔ digits.head? ≠ .some 0x30 := by
  constructor
  · intro same
    rw [← same]
    exact decimal_head positive
  · exact decimal_digitsValue some decimals

theorem parseUnsigned_digits {max : Nat} {digits : List UInt8} (some : digits ≠ [])
    (decimals : ∀ b ∈ digits, isAsciiDigit b) :
    parseUnsigned max digits = if digitsValue digits ≤ max then .some (digitsValue digits) else none := by
  have unsigned : digits.head? ≠ .some 0x2b := by
    intro plus
    have member := decimals 0x2b (List.mem_of_mem_head? plus)
    exact absurd member (by decide)
  have guard : (digits.isEmpty || !digits.all isAsciiDigit) = false := by simpa [some] using decimals
  simp [parseUnsigned,unsigned,guard]

end Polyguard.Decimal
