import Mathlib.Data.List.Basic

/-! Byte classes of the ASCII table and texts kept as their encoded bytes.
A text is the list of its UTF-8 bytes, so that equality, length and order of
texts are those of the byte lists; nothing here depends on a protocol. -/
namespace Polyguard.Ascii

/-- The bytes of a text whose characters are all ASCII. -/
def ascii (text : String) : List UInt8 := text.toList.map Char.toUInt8

/-- A property of bytes holds everywhere once it holds at the 16 rows of 16 table entries. -/
theorem forall_byte {p : UInt8 → Prop} (table : ∀ high low : Fin 16, p (UInt8.ofNat (16 * high.val + low.val)))
    (byte : UInt8) : p byte := by
  have bound : byte.toNat < 256 := byte.toNat_lt
  have entry := table ⟨byte.toNat / 16,by omega⟩ ⟨byte.toNat % 16,by omega⟩
  rw [Nat.div_add_mod,UInt8.ofNat_toNat] at entry
  exact entry

def isAscii (byte : UInt8) : Bool := byte < 0x80

def isAsciiDigit (byte : UInt8) : Bool := 0x30 ≤ byte && byte ≤ 0x39

def isAsciiUppercase (byte : UInt8) : Bool := 0x41 ≤ byte && byte ≤ 0x5a

def isAsciiLowercase (byte : UInt8) : Bool := 0x61 ≤ byte && byte ≤ 0x7a

def isAsciiAlphanumeric (byte : UInt8) : Bool :=
  isAsciiDigit byte || isAsciiUppercase byte || isAsciiLowercase byte

def isAsciiHexdigit (byte : UInt8) : Bool :=
  isAsciiDigit byte || (0x41 ≤ byte && byte ≤ 0x46) || (0x61 ≤ byte && byte ≤ 0x66)

def isAsciiGraphic (byte : UInt8) : Bool := 0x21 ≤ byte && byte ≤ 0x7e

def isAsciiControl (byte : UInt8) : Bool := byte ≤ 0x1f || byte == 0x7f

/-- The blanks of `u8::is_ascii_whitespace`: SP, HTAB, LF, FF and CR. -/
def isAsciiWhitespace (byte : UInt8) : Bool :=
  byte == 0x20 || byte == 0x09 || byte == 0x0a || byte == 0x0c || byte == 0x0d

def toAsciiLowercase (byte : UInt8) : UInt8 := if isAsciiUppercase byte then byte + 32 else byte

def toAsciiUppercase (byte : UInt8) : UInt8 := if isAsciiLowercase byte then byte - 32 else byte

/-- Comparison of two byte strings after folding the ASCII letters. -/
def eqIgnoreAsciiCase (left right : List UInt8) : Bool :=
  left.map toAsciiLowercase == right.map toAsciiLowercase

/-- The UTF-8 bytes of the character whose code point is this byte (`char::from`). -/
def charFrom (byte : UInt8) : List UInt8 :=
  if byte < 0x80 then [byte] else [0xc0 + byte / 64, 0x80 + byte % 64]

/-- Collecting `char::from` of every byte into one text. -/
def collectChars (bytes : List UInt8) : List UInt8 := bytes.flatMap charFrom

theorem charFrom_ascii {byte : UInt8} (small : isAscii byte) : charFrom byte = [byte] := by
  simp_all [charFrom,isAscii]

theorem collectChars_ascii {bytes : List UInt8} (small : ∀ b ∈ bytes, isAscii b) :
    collectChars bytes = bytes := by
  induction bytes with
  | nil => rfl
  | cons byte bytes ih =>
    have head : charFrom byte = [byte] := charFrom_ascii (small byte (by simp))
    have tail := ih fun b member => small b (by simp [member])
    unfold collectChars at tail ⊢
    simp [head,tail]

theorem collectChars_map_ascii {bytes : List UInt8} (f : UInt8 → UInt8)
    (small : ∀ b ∈ bytes, isAscii (f b)) : collectChars (bytes.map f) = bytes.map f := by
  apply collectChars_ascii
  intro b member
  obtain ⟨a,inside,rfl⟩ := List.mem_map.mp member
  exact small a inside

theorem toAsciiLowercase_ascii {byte : UInt8} (small : isAscii byte) :
    isAscii (toAsciiLowercase byte) := by
  revert small
  exact forall_byte (p := fun b => isAscii b → isAscii (toAsciiLowercase b)) (by decide) byte

theorem toAsciiLowercase_idem (byte : UInt8) :
    toAsciiLowercase (toAsciiLowercase byte) = toAsciiLowercase byte :=
  forall_byte (p := fun b => toAsciiLowercase (toAsciiLowercase b) = toAsciiLowercase b)
    (by decide) byte

theorem eqIgnoreAsciiCase_iff (left right : List UInt8) :
    eqIgnoreAsciiCase left right ↔ left.map toAsciiLowercase = right.map toAsciiLowercase := by
  simp [eqIgnoreAsciiCase]

end Polyguard.Ascii
