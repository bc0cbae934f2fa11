import Polyguard.Bytes.Ascii

/-! UTF-8 well-formedness of a byte string, by the table of well-formed sequences.
The lead byte fixes the length of a sequence and the range of its second byte;
every later byte is a plain continuation byte. -/
namespace Polyguard.Utf8
open Ascii

inductive Lead where
  | single
  | pair
  | triple (low high : UInt8)
  | quadruple (low high : UInt8)
  | invalid
deriving DecidableEq

/-- Overlong forms, surrogates and code points above U+10FFFF have no lead or a narrower second byte. -/
def leadOf (byte : UInt8) : Lead :=
  if byte < 0x80 then .single
  else if byte < 0xc2 then .invalid
  else if byte < 0xe0 then .pair
  else if byte == 0xe0 then .triple 0xa0 0xbf
  else if byte == 0xed then .triple 0x80 0x9f
  else if byte < 0xf0 then .triple 0x80 0xbf
  else if byte == 0xf0 then .quadruple 0x90 0xbf
  else if byte < 0xf4 then .quadruple 0x80 0xbf
  else if byte == 0xf4 then .quadruple 0x80 0x8f
  else .invalid

def inRange (low high byte : UInt8) : Bool := low ≤ byte && byte ≤ high

def isContinuation (byte : UInt8) : Bool := inRange 0x80 0xbf byte

/-- The bytes are a sequence of encoded characters. -/
def valid : List UInt8 → Bool
  | [] => true
  | first :: bytes =>
    match leadOf first with
    | .single => valid bytes
    | .pair =>
      match bytes with
      | second :: rest => isContinuation second && valid rest
      | [] => false
    | .triple low high =>
      match bytes with
      | second :: third :: rest => inRange low high second && isContinuation third && valid rest
      | _ => false
    | .quadruple low high =>
      match bytes with
      | second :: third :: fourth :: rest =>
        inRange low high second && isContinuation third && isContinuation fourth && valid rest
      | _ => false
    | .invalid => false

/-- `String::from_utf8`: the text with these bytes, when there is one. -/
def fromUtf8 (bytes : List UInt8) : Option (List UInt8) := if valid bytes then some bytes else none

def replacement : List UInt8 := [0xef,0xbf,0xbd]

/-- `String::from_utf8_lossy`: U+FFFD stands for every longest part that begins a character and breaks off. -/
def lossy : List UInt8 → List UInt8
  | [] => []
  | first :: bytes =>
    match leadOf first with
    | .single => first :: lossy bytes
    | .invalid => replacement ++ lossy bytes
    | .pair =>
      match bytes with
      | [] => replacement
      | second :: rest => if isContinuation second then first :: second :: lossy rest else replacement ++ lossy (second :: rest)
    | .triple low high =>
      match bytes with
      | [] => replacement
      | second :: rest =>
        if !inRange low high second then replacement ++ lossy (second :: rest)
        else match rest with
          | [] => replacement
          | third :: rest =>
            if isContinuation third then first :: second :: third :: lossy rest else replacement ++ lossy (third :: rest)
    | .quadruple low high =>
      match bytes with
      | [] => replacement
      | second :: rest =>
        if !inRange low high second then replacement ++ lossy (second :: rest)
        else match rest with
          | [] => replacement
          | third :: rest =>
            if !isContinuation third then replacement ++ lossy (third :: rest)
            else match rest with
              | [] => replacement
              | fourth :: rest =>
                if isContinuation fourth then first :: second :: third :: fourth :: lossy rest
                else replacement ++ lossy (fourth :: rest)

theorem leadOf_ascii {byte : UInt8} (small : isAscii byte) : leadOf byte = .single := by
  rw [leadOf,if_pos (by simpa [isAscii] using small)]

theorem valid_of_ascii {bytes : List UInt8} (small : ∀ b ∈ bytes, isAscii b) : valid bytes := by
  induction bytes with
  | nil => rfl
  | cons byte bytes ih =>
    unfold valid
    rw [leadOf_ascii (small byte (by simp))]
    exact ih fun b member => small b (by simp [member])

/-- The encoding of one character outside ASCII: no byte of it is ASCII, and it may be taken off the front. -/
structure Wide (character : List UInt8) : Prop where
  nonempty : character ≠ []
  large : ∀ b ∈ character, isAscii b = false
  front : ∀ bytes, valid (character ++ bytes) = valid bytes

theorem inRange_large {low high byte : UInt8} (above : 0x80 ≤ low) (inside : inRange low high byte) :
    isAscii byte = false := by
  simp only [inRange,Bool.and_eq_true,decide_eq_true_eq] at inside
  simpa [isAscii] using UInt8.le_trans above inside.1

theorem lead_large {byte : UInt8} {lead : Lead} (read : leadOf byte = lead) (other : lead ≠ .single) :
    isAscii byte = false := by
  cases small : isAscii byte with
  | false => rfl
  | true => exact absurd (read.symm.trans (leadOf_ascii small)) other

theorem triple_low {byte low high : UInt8} (lead : leadOf byte = .triple low high) : 0x80 ≤ low := by
  unfold leadOf at lead
  split_ifs at lead <;> cases lead <;> decide

theorem quadruple_low {byte low high : UInt8} (lead : leadOf byte = .quadruple low high) : 0x80 ≤ low := by
  unfold leadOf at lead
  split_ifs at lead <;> cases lead <;> decide

theorem valid_characters {motive : List UInt8 → Prop} (nil : motive [])
    (single : ∀ byte bytes, isAscii byte → valid bytes → motive bytes → motive (byte :: bytes))
    (wide : ∀ character bytes, Wide character → valid bytes → motive bytes → motive (character ++ bytes))
    {bytes : List UInt8} (text : valid bytes) : motive bytes := by
  induction bytes using valid.induct with
  | case1 => exact nil
  | case2 byte bytes lead ih =>
    unfold valid at text
    simp only [lead] at text
    refine single byte bytes ?_ text (ih text)
    cases small : isAscii byte with
    | true => rfl
    | false =>
      unfold leadOf at lead
      split_ifs at lead with below
      simp_all [isAscii]
  | case3 byte lead second rest ih =>
    rw [valid,lead] at text
    simp only [Bool.and_eq_true] at text
    refine wide [byte,second] rest ⟨by simp,?_,?_⟩ text.2 (ih text.2)
    · simp [lead_large lead (by simp),inRange_large (by decide) text.1]
    · intro bytes
      simp [valid,lead,text.1]
  | case4 byte lead => simp [valid,lead] at text
  | case5 byte low high lead second third rest ih =>
    rw [valid,lead] at text
    simp only [Bool.and_eq_true] at text
    refine wide [byte,second,third] rest ⟨by simp,?_,?_⟩ text.2 (ih text.2)
    · simp [lead_large lead (by simp),inRange_large (triple_low lead) text.1.1,inRange_large (by decide) text.1.2]
    · intro bytes
      simp [valid,lead,text.1.1,text.1.2]
  | case6 byte bytes low high lead short =>
    unfold valid at text
    simp only [lead] at text
    cases text
  | case7 byte low high lead second third fourth rest ih =>
    rw [valid,lead] at text
    simp only [Bool.and_eq_true] at text
    refine wide [byte,second,third,fourth] rest ⟨by simp,?_,?_⟩ text.2 (ih text.2)
    · simp [lead_large lead (by simp),inRange_large (quadruple_low lead) text.1.1.1,
        inRange_large (by decide) text.1.1.2,inRange_large (by decide) text.1.2]
    · intro bytes
      simp [valid,lead,text.1.1.1,text.1.1.2,text.1.2]
  | case8 byte bytes low high lead short =>
    unfold valid at text
    simp only [lead] at text
    cases text
  | case9 byte bytes lead =>
    unfold valid at text
    simp [lead] at text

theorem valid_cons {byte : UInt8} (small : isAscii byte) (bytes : List UInt8) : valid (byte :: bytes) = valid bytes := by
  conv_lhs => unfold valid
  rw [leadOf_ascii small]

theorem valid_append {left : List UInt8} (text : valid left) (right : List UInt8) : valid (left ++ right) = valid right := by
  refine valid_characters (motive := fun bytes => valid (bytes ++ right) = valid right) rfl ?_ ?_ text
  · intro byte bytes small _ ih
    rw [List.cons_append,valid_cons small,ih]
  · intro character bytes encoded _ ih
    rw [List.append_assoc,encoded.front,ih]

/-- No character ends in an ASCII byte it does not begin with, so that a text may be cut before one. -/
theorem valid_before {left right : List UInt8} {byte : UInt8} (small : isAscii byte) (text : valid (left ++ byte :: right)) :
    valid left := by
  refine valid_characters (motive := fun bytes => ∀ left, left ++ byte :: right = bytes → valid left) ?_ ?_ ?_ text left rfl
  · intro left cut
    exact absurd (List.append_eq_nil_iff.mp cut).2 (List.cons_ne_nil _ _)
  · intro first bytes ascii _ ih left cut
    cases left with
    | nil => rfl
    | cons head left =>
      obtain ⟨rfl,tail⟩ := List.cons.inj cut
      rw [valid_cons ascii]
      exact ih left tail
  · intro character bytes encoded _ ih left cut
    obtain ⟨part,whole,rest⟩ | ⟨part,rfl,rest⟩ := List.append_eq_append_iff.mp cut
    · cases part with
      | nil =>
        rw [List.append_nil] at whole
        rw [← whole,← List.append_nil character,encoded.front]
        rfl
      | cons head part =>
        obtain ⟨rfl,-⟩ := List.cons.inj rest
        have large := encoded.large byte (by simp [whole])
        rw [small] at large
        cases large
    · rw [encoded.front]
      exact ih part rest.symm

end Polyguard.Utf8
