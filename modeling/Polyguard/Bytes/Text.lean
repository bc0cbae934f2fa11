import Polyguard.Bytes.Utf8

/-! Texts as their UTF-8 bytes: white space and its trimming.
A white-space character has one byte, two or three; the characters are those of the
Unicode property White_Space. -/
namespace Polyguard.Text
open Ascii

def isSpace (byte : UInt8) : Bool := (0x09 ≤ byte && byte ≤ 0x0d) || byte == 0x20

def isSpacePair (first second : UInt8) : Bool := first == 0xc2 && (second == 0x85 || second == 0xa0)

def isSpaceTriple (first second third : UInt8) : Bool :=
  (first == 0xe1 && second == 0x9a && third == 0x80) ||
    (first == 0xe2 && second == 0x80 && ((0x80 ≤ third && third ≤ 0x8a) || third == 0xa8 || third == 0xa9 || third == 0xaf)) ||
    (first == 0xe2 && second == 0x81 && third == 0x9f) || (first == 0xe3 && second == 0x80 && third == 0x80)

/-- Drops white space at the front, with the characters of two and three bytes as given. -/
def trimFront (pair : UInt8 → UInt8 → Bool) (triple : UInt8 → UInt8 → UInt8 → Bool) : List UInt8 → List UInt8
  | a :: b :: c :: rest =>
    if isSpace a then trimFront pair triple (b :: c :: rest)
    else if pair a b then trimFront pair triple (c :: rest)
    else if triple a b c then trimFront pair triple rest
    else a :: b :: c :: rest
  | [a,b] => if isSpace a then trimFront pair triple [b] else if pair a b then [] else [a,b]
  | [a] => if isSpace a then [] else [a]
  | [] => []

/-- `str::trim`. -/
def trim (text : List UInt8) : List UInt8 :=
  let started := trimFront isSpacePair isSpaceTriple text
  (trimFront (fun b a => isSpacePair a b) (fun c b a => isSpaceTriple a b c) started.reverse).reverse

/-- An ASCII byte that is no white space. -/
def isTight (byte : UInt8) : Bool := isAscii byte && !isSpace byte

theorem tight_bytes {byte : UInt8} (tight : isTight byte) : isSpace byte = false ∧ byte < 0x80 := by
  unfold isTight at tight
  rw [Bool.and_eq_true,Bool.not_eq_true'] at tight
  refine ⟨tight.2,?_⟩
  have small := tight.1
  unfold isAscii at small
  simpa using small

theorem trimFront_tight {pair : UInt8 → UInt8 → Bool} {triple : UInt8 → UInt8 → UInt8 → Bool} {text : List UInt8}
    (pairs : ∀ a b, isTight a → pair a b = false) (triples : ∀ a b c, isTight a → triple a b c = false)
    (head : ∀ b ∈ text.head?, isTight b) : trimFront pair triple text = text := by
  match text with
  | [] => rfl
  | [a] =>
    rw [trimFront,(tight_bytes (head a rfl)).1]
    rfl
  | [a,b] =>
    rw [trimFront,(tight_bytes (head a rfl)).1,pairs a b (head a rfl)]
    rfl
  | a :: b :: c :: rest =>
    rw [trimFront,(tight_bytes (head a rfl)).1,pairs a b (head a rfl),triples a b c (head a rfl)]
    rfl

theorem tight_apart {byte : UInt8} (tight : isTight byte) :
    (∀ other : UInt8, isSpacePair byte other = false ∧ isSpacePair other byte = false) ∧
      ∀ other third : UInt8, isSpaceTriple byte other third = false ∧ isSpaceTriple third other byte = false := by
  have small := (tight_bytes tight).2
  have apart (high : UInt8) (above : 0x80 ≤ high) : (byte == high) = false := by
    rw [beq_eq_false_iff_ne]
    rintro rfl
    exact absurd small (UInt8.not_lt.mpr above)
  have below : decide ((0x80 : UInt8) ≤ byte) = false := decide_eq_false (UInt8.not_le.mpr small)
  refine ⟨fun other => ⟨?_,?_⟩,fun other third => ⟨?_,?_⟩⟩
  · rw [isSpacePair,apart 0xc2 (by decide),Bool.false_and]
  · rw [isSpacePair,apart 0x85 (by decide),apart 0xa0 (by decide),Bool.or_false,Bool.and_false]
  · rw [isSpaceTriple,apart 0xe1 (by decide),apart 0xe2 (by decide),apart 0xe3 (by decide)]
    rfl
  · rw [isSpaceTriple,apart 0x80 (by decide),below,apart 0xa8 (by decide),apart 0xa9 (by decide),apart 0xaf (by decide),
      apart 0x9f (by decide)]
    simp only [Bool.and_false,Bool.false_and,Bool.or_false]

theorem trim_tight {text : List UInt8} (head : ∀ b ∈ text.head?, isTight b) (last : ∀ b ∈ text.getLast?, isTight b) :
    trim text = text := by
  unfold trim
  dsimp only
  rw [trimFront_tight (fun a b tight => ((tight_apart tight).1 b).1) (fun a b c tight => ((tight_apart tight).2 b c).1) head,
    trimFront_tight (fun a b tight => ((tight_apart tight).1 b).2) (fun a b c tight => ((tight_apart tight).2 b c).2)
      (by rwa [List.head?_reverse]),List.reverse_reverse]

end Polyguard.Text
