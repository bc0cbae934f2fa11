import Polyguard.Upgrade.Implementations

/-! The key of a handshake: the base64 text of 16 bytes.
Three implementations decode it and two check its digits; both amount to being the
text of some 16 bytes, with the four unused bits of the last digit zero. -/
namespace Polyguard.Upgrade
open Ascii Slices

/-- The character of a digit below 64. -/
def digitChar (digit : UInt8) : UInt8 := (UpgradeInvariantSignature.base64Alphabet[digit.toNat]?).getD 0

def encodeTriple (x y z : UInt8) : List UInt8 :=
  [digitChar (x >>> 2),digitChar (((x &&& 3) <<< 4) ||| (y >>> 4)),digitChar (((y &&& 15) <<< 2) ||| (z >>> 6)),
    digitChar (z &&& 63)]

/-- The base64 text of a byte string, padded to whole groups. -/
def base64 : List UInt8 → List UInt8
  | [] => []
  | [x] => [digitChar (x >>> 2),digitChar ((x &&& 3) <<< 4),0x3d,0x3d]
  | [x,y] => [digitChar (x >>> 2),digitChar (((x &&& 3) <<< 4) ||| (y >>> 4)),digitChar ((y &&& 15) <<< 2),0x3d]
  | x :: y :: z :: bytes => encodeTriple x y z ++ base64 bytes

theorem forall_below {n : Nat} {p : UInt8 → Prop} (table : ∀ k : Fin n, p (UInt8.ofNat k)) {byte : UInt8}
    (small : byte.toNat < n) : p byte := by
  simpa using table ⟨byte.toNat,small⟩

theorem forall_below_pair {m n : Nat} {p : UInt8 → UInt8 → Prop}
    (table : ∀ (j : Fin m) (k : Fin n), p (UInt8.ofNat j) (UInt8.ofNat k)) {left right : UInt8}
    (leftSmall : left.toNat < m) (rightSmall : right.toNat < n) : p left right :=
  forall_below (p := fun byte => p byte right) (fun j => forall_below (p := p (UInt8.ofNat j)) (table j) rightSmall)
    leftSmall

theorem bit_tables :
    (∀ k : Fin 64, base64Digit (digitChar (UInt8.ofNat k)) = some (UInt8.ofNat k)) ∧
    (∀ (j : Fin 4) (k : Fin 16), ((UInt8.ofNat j <<< 4) ||| UInt8.ofNat k).toNat < 64 ∧
      ((UInt8.ofNat j <<< 4) ||| UInt8.ofNat k) >>> 4 = UInt8.ofNat j ∧
      ((UInt8.ofNat j <<< 4) ||| UInt8.ofNat k) <<< 4 = UInt8.ofNat k <<< 4) ∧
    (∀ (j : Fin 16) (k : Fin 4), ((UInt8.ofNat j <<< 2) ||| UInt8.ofNat k).toNat < 64 ∧
      ((UInt8.ofNat j <<< 2) ||| UInt8.ofNat k) >>> 2 = UInt8.ofNat j ∧
      ((UInt8.ofNat j <<< 2) ||| UInt8.ofNat k) <<< 6 = UInt8.ofNat k <<< 6) ∧
    (∀ k : Fin 64, (UInt8.ofNat k >>> 4).toNat < 4 ∧ (UInt8.ofNat k >>> 2).toNat < 16 ∧
      UInt8.ofNat k <<< 4 = (UInt8.ofNat k &&& 15) <<< 4 ∧ UInt8.ofNat k <<< 6 = (UInt8.ofNat k &&& 3) <<< 6) ∧
    (∀ (j : Fin 64) (k : Fin 4), ((UInt8.ofNat j <<< 2) ||| UInt8.ofNat k) >>> 2 = UInt8.ofNat j ∧
      ((UInt8.ofNat j <<< 2) ||| UInt8.ofNat k) &&& (3 : UInt8) = UInt8.ofNat k) ∧
    (∀ (j : Fin 16) (k : Fin 16), ((UInt8.ofNat j <<< 4) ||| UInt8.ofNat k) >>> 4 = UInt8.ofNat j ∧
      ((UInt8.ofNat j <<< 4) ||| UInt8.ofNat k) &&& (15 : UInt8) = UInt8.ofNat k) ∧
    (∀ (j : Fin 4) (k : Fin 64), ((UInt8.ofNat j <<< 6) ||| UInt8.ofNat k) >>> 6 = UInt8.ofNat j ∧
      ((UInt8.ofNat j <<< 6) ||| UInt8.ofNat k) &&& (63 : UInt8) = UInt8.ofNat k) := by
  refine ⟨?_,?_,?_,?_,?_,?_,?_⟩ <;> decide +kernel

theorem digit_char {digit : UInt8} (small : digit.toNat < 64) : base64Digit (digitChar digit) = some digit :=
  forall_below (p := fun d => base64Digit (digitChar d) = some d) bit_tables.1 small

theorem char_digit {byte digit : UInt8} (read : base64Digit byte = some digit) :
    digit.toNat < 64 ∧ digitChar digit = byte := by
  have table := forall_byte (p := fun b => (base64Digit b).all fun d => decide (d.toNat < 64) && digitChar d == b)
    (by decide) byte
  simpa [read] using table

theorem split_six (byte : UInt8) :
    (byte >>> 2).toNat < 64 ∧ (byte &&& 3).toNat < 4 ∧ ((byte >>> 2) <<< 2) ||| (byte &&& 3) = byte :=
  forall_byte (p := fun b => (b >>> 2).toNat < 64 ∧ (b &&& 3).toNat < 4 ∧ ((b >>> 2) <<< 2) ||| (b &&& 3) = b)
    (by decide) byte

theorem split_four (byte : UInt8) :
    (byte >>> 4).toNat < 16 ∧ (byte &&& 15).toNat < 16 ∧ ((byte >>> 4) <<< 4) ||| (byte &&& 15) = byte :=
  forall_byte (p := fun b => (b >>> 4).toNat < 16 ∧ (b &&& 15).toNat < 16 ∧ ((b >>> 4) <<< 4) ||| (b &&& 15) = b)
    (by decide) byte

theorem split_two (byte : UInt8) :
    (byte >>> 6).toNat < 4 ∧ (byte &&& 63).toNat < 64 ∧ ((byte >>> 6) <<< 6) ||| (byte &&& 63) = byte :=
  forall_byte (p := fun b => (b >>> 6).toNat < 4 ∧ (b &&& 63).toNat < 64 ∧ ((b >>> 6) <<< 6) ||| (b &&& 63) = b)
    (by decide) byte

theorem join_two_four {high low : UInt8} (highSmall : high.toNat < 4) (lowSmall : low.toNat < 16) :
    ((high <<< 4) ||| low).toNat < 64 ∧ ((high <<< 4) ||| low) >>> 4 = high ∧
      ((high <<< 4) ||| low) <<< 4 = low <<< 4 :=
  forall_below_pair (p := fun high low => ((high <<< 4) ||| low).toNat < 64 ∧ ((high <<< 4) ||| low) >>> 4 = high ∧
    ((high <<< 4) ||| low) <<< 4 = low <<< 4) bit_tables.2.1 highSmall lowSmall

theorem join_four_two {high low : UInt8} (highSmall : high.toNat < 16) (lowSmall : low.toNat < 4) :
    ((high <<< 2) ||| low).toNat < 64 ∧ ((high <<< 2) ||| low) >>> 2 = high ∧
      ((high <<< 2) ||| low) <<< 6 = low <<< 6 :=
  forall_below_pair (p := fun high low => ((high <<< 2) ||| low).toNat < 64 ∧ ((high <<< 2) ||| low) >>> 2 = high ∧
    ((high <<< 2) ||| low) <<< 6 = low <<< 6) bit_tables.2.2.1 highSmall lowSmall

theorem join_digits (x y z : UInt8) :
    joinQuartet (x >>> 2) (((x &&& 3) <<< 4) ||| (y >>> 4)) (((y &&& 15) <<< 2) ||| (z >>> 6)) (z &&& 63) = [x,y,z] := by
  obtain ⟨-,xLow,xSplit⟩ := split_six x
  obtain ⟨yHigh,yLow,ySplit⟩ := split_four y
  obtain ⟨zHigh,-,zSplit⟩ := split_two z
  obtain ⟨-,second,second'⟩ := join_two_four xLow yHigh
  obtain ⟨-,third,third'⟩ := join_four_two yLow zHigh
  simp only [joinQuartet,second,second',third,third',xSplit,ySplit,zSplit]

theorem digit_bits {digit : UInt8} (small : digit.toNat < 64) :
    (digit >>> 4).toNat < 4 ∧ (digit >>> 2).toNat < 16 ∧ digit <<< 4 = (digit &&& 15) <<< 4 ∧
      digit <<< 6 = (digit &&& 3) <<< 6 :=
  forall_below (p := fun d => (d >>> 4).toNat < 4 ∧ (d >>> 2).toNat < 16 ∧ d <<< 4 = (d &&& 15) <<< 4 ∧
    d <<< 6 = (d &&& 3) <<< 6) bit_tables.2.2.2.1 small

theorem join_six_two {high low : UInt8} (highSmall : high.toNat < 64) (lowSmall : low.toNat < 4) :
    ((high <<< 2) ||| low) >>> 2 = high ∧ ((high <<< 2) ||| low) &&& (3 : UInt8) = low :=
  forall_below_pair (p := fun high low : UInt8 => ((high <<< 2) ||| low) >>> 2 = high ∧
    ((high <<< 2) ||| low) &&& (3 : UInt8) = low) bit_tables.2.2.2.2.1 highSmall lowSmall

theorem join_four_four {high low : UInt8} (highSmall : high.toNat < 16) (lowSmall : low.toNat < 16) :
    ((high <<< 4) ||| low) >>> 4 = high ∧ ((high <<< 4) ||| low) &&& (15 : UInt8) = low :=
  forall_below_pair (p := fun high low : UInt8 => ((high <<< 4) ||| low) >>> 4 = high ∧
    ((high <<< 4) ||| low) &&& (15 : UInt8) = low) bit_tables.2.2.2.2.2.1 highSmall lowSmall

theorem join_two_six {high low : UInt8} (highSmall : high.toNat < 4) (lowSmall : low.toNat < 64) :
    ((high <<< 6) ||| low) >>> 6 = high ∧ ((high <<< 6) ||| low) &&& (63 : UInt8) = low :=
  forall_below_pair (p := fun high low : UInt8 => ((high <<< 6) ||| low) >>> 6 = high ∧
    ((high <<< 6) ||| low) &&& (63 : UInt8) = low) bit_tables.2.2.2.2.2.2 highSmall lowSmall

theorem triple_digits {a b c d : UInt8} (aSmall : a.toNat < 64) (bSmall : b.toNat < 64) (cSmall : c.toNat < 64)
    (dSmall : d.toNat < 64) :
    ((a <<< 2) ||| (b >>> 4)) >>> 2 = a ∧
      (((((a <<< 2) ||| (b >>> 4)) &&& 3) <<< 4) ||| (((b <<< 4) ||| (c >>> 2)) >>> 4)) = b ∧
      (((((b <<< 4) ||| (c >>> 2)) &&& 15) <<< 2) ||| (((c <<< 6) ||| d) >>> 6)) = c ∧ ((c <<< 6) ||| d) &&& 63 = d := by
  obtain ⟨bHigh,-,bShift,-⟩ := digit_bits bSmall
  obtain ⟨-,cHigh,-,cShift⟩ := digit_bits cSmall
  have first := join_six_two aSmall bHigh
  have second := join_four_four (split_four b).2.1 cHigh
  have third := join_two_six (split_six c).2.1 dSmall
  rw [bShift,cShift,first.1,first.2,second.1,second.2,third.1,third.2]
  exact ⟨rfl,(split_four b).2.2,(split_six c).2.2,rfl⟩

theorem decode_triple (x y z : UInt8) (text : List UInt8) :
    decodeGroups base64Digit (encodeTriple x y z ++ text) =
      (decodeGroups base64Digit text).map fun decoded => x :: y :: z :: decoded := by
  have first := digit_char (split_six x).1
  have second := digit_char (join_two_four (split_six x).2.1 (split_four y).1).1
  have third := digit_char (join_four_two (split_four y).2.1 (split_two z).1).1
  have fourth := digit_char (split_two z).2.1
  simp only [encodeTriple,List.cons_append,List.nil_append,decodeGroups,first,second,third,fourth,
    Option.bind_eq_bind,Option.bind_some,join_digits]
  cases decodeGroups base64Digit text <;> rfl

theorem decode_groups (bytes text : List UInt8) (n : Nat) (size : bytes.length = 3 * n) :
    decodeGroups base64Digit text = some bytes ∧ text.length = 4 * n ↔ text = base64 bytes := by
  induction n generalizing bytes text with
  | zero =>
    obtain rfl : bytes = [] := List.length_eq_zero_iff.mp (by omega)
    constructor
    · rintro ⟨-,empty⟩
      exact List.length_eq_zero_iff.mp (by omega)
    · rintro rfl
      exact ⟨rfl,rfl⟩
  | succ n ih =>
    obtain _ | ⟨x,_ | ⟨y,_ | ⟨z,bytes⟩⟩⟩ := bytes
    · simp at size
    · simp only [List.length_cons,List.length_nil] at size; omega
    · simp only [List.length_cons,List.length_nil] at size; omega
    · have rest := ih bytes
      simp only [List.length_cons] at size
      constructor
      · rintro ⟨decoded,long⟩
        obtain _ | ⟨a,_ | ⟨b,_ | ⟨c,_ | ⟨d,text⟩⟩⟩⟩ := text
        · simp at long
        · simp only [List.length_cons,List.length_nil] at long; omega
        · simp only [List.length_cons,List.length_nil] at long; omega
        · simp only [List.length_cons,List.length_nil] at long; omega
        · simp only [List.length_cons] at long
          simp only [decodeGroups,Option.bind_eq_bind,Option.bind_eq_some_iff] at decoded
          obtain ⟨first,readA,second,readB,third,readC,fourth,readD,tail,decoded,joined⟩ := decoded
          obtain ⟨aSmall,rfl⟩ := char_digit readA
          obtain ⟨bSmall,rfl⟩ := char_digit readB
          obtain ⟨cSmall,rfl⟩ := char_digit readC
          obtain ⟨dSmall,rfl⟩ := char_digit readD
          simp only [joinQuartet,List.cons_append,List.nil_append,Option.some.injEq,List.cons.injEq] at joined
          obtain ⟨rfl,rfl,rfl,rfl⟩ := joined
          have spelled := (rest text (by omega)).mp ⟨decoded,by omega⟩
          obtain ⟨one,two,three,four⟩ := triple_digits aSmall bSmall cSmall dSmall
          simp only [base64,encodeTriple,one,two,three,four,List.cons_append,List.nil_append,← spelled]
      · rintro rfl
        obtain ⟨decoded,long⟩ := (rest (base64 bytes) (by omega)).mpr rfl
        refine ⟨?_,?_⟩
        · rw [base64,decode_triple,decoded]
          rfl
        · simp only [base64,encodeTriple,List.length_append,List.length_cons,List.length_nil]
          omega

theorem base64_append {front : List UInt8} {n : Nat} (size : front.length = 3 * n) (back : List UInt8) :
    base64 (front ++ back) = base64 front ++ base64 back := by
  induction n generalizing front with
  | zero =>
    obtain rfl : front = [] := List.length_eq_zero_iff.mp (by omega)
    rfl
  | succ n ih =>
    obtain _ | ⟨x,_ | ⟨y,_ | ⟨z,front⟩⟩⟩ := front
    · simp at size
    · simp only [List.length_cons,List.length_nil] at size; omega
    · simp only [List.length_cons,List.length_nil] at size; omega
    · simp only [List.length_cons] at size
      simp only [List.cons_append,base64,ih (show front.length = 3 * n by omega),List.append_assoc]

theorem decodeGroups_all (value : UInt8 → Option UInt8) (text : List UInt8) (n : Nat) (size : text.length = 4 * n) :
    (decodeGroups value text).isSome = text.all (fun byte => (value byte).isSome) ∧
      ∀ bytes, decodeGroups value text = some bytes → bytes.length = 3 * n := by
  induction n generalizing text with
  | zero =>
    obtain rfl : text = [] := List.length_eq_zero_iff.mp (by omega)
    refine ⟨rfl,fun bytes decoded => ?_⟩
    cases decoded
    rfl
  | succ n ih =>
    obtain _ | ⟨a,_ | ⟨b,_ | ⟨c,_ | ⟨d,text⟩⟩⟩⟩ := text
    · simp at size
    · simp only [List.length_cons,List.length_nil] at size; omega
    · simp only [List.length_cons,List.length_nil] at size; omega
    · simp only [List.length_cons,List.length_nil] at size; omega
    · simp only [List.length_cons] at size
      obtain ⟨all,long⟩ := ih text (by omega)
      simp only [decodeGroups,Option.bind_eq_bind]
      constructor
      · simp only [List.all_cons,← all]
        cases value a with
        | none => rfl
        | some a =>
          cases value b with
          | none => rfl
          | some b =>
            cases value c with
            | none => rfl
            | some c =>
              cases value d with
              | none => rfl
              | some d => cases decodeGroups value text <;> rfl
      · intro bytes decoded
        simp only [Option.bind_eq_some_iff] at decoded
        obtain ⟨_,_,_,_,_,_,_,_,tail,decoded,joined⟩ := decoded
        have rest := long tail decoded
        cases joined
        simp only [joinQuartet,List.length_append,List.length_cons,List.length_nil]
        omega

theorem key_parts {encoded : List UInt8} (size : encoded.length = 24) :
    ∃ groups high low pad pad', groups.length = 20 ∧ encoded = groups ++ [high,low,pad,pad'] := by
  have tail : (encoded.drop 20).length = 4 := by rw [List.length_drop]; omega
  obtain ⟨high,low,pad,pad',shape⟩ := List.length_eq_four.mp tail
  refine ⟨encoded.take 20,high,low,pad,pad',by rw [List.length_take]; omega,?_⟩
  rw [← shape,List.take_append_drop]

theorem decodeKey_parts (value : UInt8 → Option UInt8) {groups : List UInt8} (size : groups.length = 20)
    (high low pad pad' : UInt8) :
    decodeKeyWith value (groups ++ [high,low,pad,pad']) =
      if [pad,pad'] ≠ ascii "==" then none
      else (decodeGroups value groups).bind fun decoded => (value high).bind fun high => (value low).bind fun low =>
        if low &&& 0x0f ≠ 0 then none else some (decoded ++ [(high <<< 2) ||| (low >>> 4)]) := by
  have behind : (groups ++ [high,low,pad,pad']).drop 22 = [pad,pad'] := by
    rw [List.drop_append,size]
    simp [List.drop_of_length_le (show groups.length ≤ 22 by omega)]
  have front : (groups ++ [high,low,pad,pad']).take 20 = groups := by
    rw [List.take_append_of_le_length (by omega),List.take_of_length_le (by omega)]
  have first : (groups ++ [high,low,pad,pad'])[20]? = some high := by
    rw [List.getElem?_append_right (by omega),size]
    rfl
  have second : (groups ++ [high,low,pad,pad'])[21]? = some low := by
    rw [List.getElem?_append_right (by omega),size]
    rfl
  have long : (groups ++ [high,low,pad,pad']).length = 24 := by simp [size]
  unfold decodeKeyWith
  rw [behind,front,first,second,long]
  simp

theorem last_digits {high low : UInt8} (highSmall : high.toNat < 64) (lowSmall : low.toNat < 64)
    (unused : low &&& 0x0f = 0) :
    ((high <<< 2) ||| (low >>> 4)) >>> 2 = high ∧ (((high <<< 2) ||| (low >>> 4)) &&& 3) <<< 4 = low := by
  obtain ⟨first,second⟩ := join_six_two highSmall (digit_bits lowSmall).1
  have split := (split_four low).2.2
  rw [unused,UInt8.or_zero] at split
  exact ⟨first,by rw [second,split]⟩

theorem last_byte (byte : UInt8) :
    ((byte &&& 3) <<< 4).toNat < 64 ∧ ((byte &&& 3) <<< 4) &&& 0x0f = 0 ∧
      ((byte >>> 2) <<< 2) ||| (((byte &&& 3) <<< 4) >>> 4) = byte :=
  forall_byte (p := fun b => ((b &&& 3) <<< 4).toNat < 64 ∧ ((b &&& 3) <<< 4) &&& 0x0f = 0 ∧
    ((b >>> 2) <<< 2) ||| (((b &&& 3) <<< 4) >>> 4) = b) (by decide) byte

theorem decodeKey_iff (encoded bytes : List UInt8) :
    decodeKeyWith base64Digit encoded = some bytes ↔ bytes.length = 16 ∧ encoded = base64 bytes := by
  constructor
  · intro decoded
    have size : encoded.length = 24 := by
      by_contra other
      simp [decodeKeyWith,other] at decoded
    obtain ⟨groups,high,low,pad,pad',long,rfl⟩ := key_parts size
    rw [decodeKey_parts _ long] at decoded
    split at decoded
    · cases decoded
    · rename_i padded
      simp only [Option.bind_eq_some_iff] at decoded
      obtain ⟨front,groupsRead,first,highRead,second,lowRead,decoded⟩ := decoded
      split at decoded
      · cases decoded
      · rename_i unused
        cases decoded
        have frontSize := (decodeGroups_all base64Digit groups 5 (by omega)).2 front groupsRead
        have spelled := (decode_groups front groups 5 (by omega)).mp ⟨groupsRead,by omega⟩
        obtain ⟨highSmall,rfl⟩ := char_digit highRead
        obtain ⟨lowSmall,rfl⟩ := char_digit lowRead
        obtain ⟨highSpelled,lowSpelled⟩ := last_digits highSmall lowSmall (not_not.mp unused)
        refine ⟨by simp [frontSize],?_⟩
        have padding : [pad,pad'] = [0x3d,0x3d] := not_not.mp padded
        obtain ⟨rfl,rfl⟩ : pad = 0x3d ∧ pad' = 0x3d := by simpa using padding
        rw [base64_append (show front.length = 3 * 5 by omega),← spelled,base64,highSpelled,lowSpelled]
  · rintro ⟨size,rfl⟩
    obtain ⟨front,last,rfl⟩ := exists_snoc (show bytes ≠ [] by rintro rfl; cases size)
    rw [List.length_append,List.length_singleton] at size
    have frontSize : front.length = 3 * 5 := by omega
    obtain ⟨groupsRead,groupsSize⟩ := (decode_groups front (base64 front) 5 frontSize).mpr rfl
    obtain ⟨lowSmall,unused,joined⟩ := last_byte last
    rw [base64_append frontSize,base64,decodeKey_parts _ (by omega),if_neg (not_not.mpr (by decide)),groupsRead,
      digit_char (split_six last).1,digit_char lowSmall]
    simp only [Option.bind_some,unused,ne_eq,not_true_eq_false,if_false,joined]

/-- The key of a handshake: the canonical text of some 16 bytes. -/
def CanonicalKey (value : List UInt8) : Prop := ∃ bytes, bytes.length = 16 ∧ value = base64 bytes

theorem decodeKey_isSome (value : List UInt8) : (decodeKeyWith base64Digit value).isSome ↔ CanonicalKey value := by
  rw [Option.isSome_iff_exists]
  constructor
  · rintro ⟨bytes,decoded⟩
    exact ⟨bytes,(decodeKey_iff value bytes).mp decoded⟩
  · rintro ⟨bytes,text⟩
    exact ⟨bytes,(decodeKey_iff value bytes).mpr text⟩

theorem decodeKey_sized (value : List UInt8) :
    (decodeKeyWith base64Digit value).any (·.length == 16) = (decodeKeyWith base64Digit value).isSome := by
  cases decoded : decodeKeyWith base64Digit value with
  | none => rfl
  | some bytes => simpa using ((decodeKey_iff value bytes).mp decoded).1

theorem alphabet_places : UpgradeInvariantSignature.base64Alphabet.map base64Digit = (List.range 64).map fun n => some (UInt8.ofNat n) := by
  decide +kernel

theorem alphabet_digit (byte : UInt8) : UpgradeInvariantSignature.base64Value byte = base64Digit byte := by
  have long : UpgradeInvariantSignature.base64Alphabet.length = 64 := by simpa using congrArg List.length alphabet_places
  have place (n : Nat) (below : n < UpgradeInvariantSignature.base64Alphabet.length) :
      base64Digit UpgradeInvariantSignature.base64Alphabet[n] = some (UInt8.ofNat n) := by
    have listed := congrArg (·[n]?) alphabet_places
    simpa [below,long ▸ below] using listed
  unfold UpgradeInvariantSignature.base64Value
  cases read : base64Digit byte with
  | none =>
    rw [position_none,Option.map_none]
    intro letter member
    obtain ⟨n,below,rfl⟩ := List.mem_iff_getElem.mp member
    apply beq_eq_false_iff_ne.mpr
    intro same
    rw [← same,place n below] at read
    cases read
  | some digit =>
    obtain ⟨small,same⟩ := char_digit read
    have below : digit.toNat < UpgradeInvariantSignature.base64Alphabet.length := by omega
    rw [digitChar,List.getElem?_eq_getElem below,Option.getD_some] at same
    have found : position (fun candidate => candidate == byte) UpgradeInvariantSignature.base64Alphabet = some digit.toNat := by
      apply List.findIdx?_eq_some_iff_getElem.mpr
      refine ⟨below,by simp [same],fun earlier before => ?_⟩
      rw [beq_iff_eq]
      intro again
      have other := place earlier (by omega)
      rw [again,read] at other
      have number := congrArg UInt8.toNat (Option.some.inj other)
      simp at number
      omega
    rw [found]
    simp

theorem alphabet_key (encoded : List UInt8) :
    UpgradeInvariantSignature.decodeCanonicalKey encoded = decodeKeyWith base64Digit encoded := by
  unfold UpgradeInvariantSignature.decodeCanonicalKey
  rw [funext alphabet_digit]

/-- The digits of a key, checked one by one and with the unused bits of the last. -/
def digitsCheck (value : UInt8 → Option UInt8) (encoded : List UInt8) : Bool :=
  encoded.length == 24 && encoded.drop 22 == ascii "==" && (encoded.take 22).all (fun byte => (value byte).isSome) &&
    (encoded[21]?.bind value).any (fun digit => digit &&& 0x0f == 0)

theorem digitsCheck_key (value : UInt8 → Option UInt8) (encoded : List UInt8) :
    digitsCheck value encoded = (decodeKeyWith value encoded).isSome := by
  by_cases size : encoded.length = 24
  · obtain ⟨groups,high,low,pad,pad',long,rfl⟩ := key_parts size
    have behind : (groups ++ [high,low,pad,pad']).drop 22 = [pad,pad'] := by
      rw [List.drop_append,long]
      simp [List.drop_of_length_le (show groups.length ≤ 22 by omega)]
    have front : (groups ++ [high,low,pad,pad']).take 22 = groups ++ [high,low] := by
      rw [List.take_append,long]
      simp [List.take_of_length_le (show groups.length ≤ 22 by omega)]
    have last : (groups ++ [high,low,pad,pad'])[21]? = some low := by
      rw [List.getElem?_append_right (by omega),long]
      rfl
    have read := (decodeGroups_all value groups 5 (by omega)).1
    rw [decodeKey_parts value long]
    simp only [digitsCheck,size,behind,front,last,List.all_append,List.all_cons,List.all_nil,← read,
      Option.bind_some,beq_self_eq_true,Bool.true_and,Bool.and_true]
    by_cases padded : [pad,pad'] = ascii "=="
    · rw [if_neg (not_not.mpr padded),padded]
      simp only [beq_self_eq_true,Bool.true_and]
      cases decodeGroups value groups with
      | none => rfl
      | some decoded =>
        cases value high with
        | none => rfl
        | some high =>
          cases value low with
          | none => rfl
          | some low =>
            by_cases unused : low &&& 0x0f = 0
            · simp [unused]
            · simp [unused]
    · rw [if_pos padded,beq_eq_false_iff_ne.mpr padded]
      rfl
  · simp [digitsCheck,decodeKeyWith,size]

theorem checked_key (value : List UInt8) :
    UpgradeComposableTable.isCanonicalWebsocketKey value = (decodeKeyWith base64Digit value).isSome :=
  digitsCheck_key base64Digit value

theorem table_digit (byte : UInt8) :
    UpgradeObligationAlgebra.valueAt byte = (base64Digit byte).getD UpgradeObligationAlgebra.invalidBase64 := by
  have table : UpgradeObligationAlgebra.base64Values =
      (List.range 256).map fun n => (base64Digit (UInt8.ofNat n)).getD UpgradeObligationAlgebra.invalidBase64 := by
    decide +kernel
  have small := byte.toNat_lt
  unfold UpgradeObligationAlgebra.valueAt
  rw [table,List.getElem?_map,List.getElem?_range (by omega)]
  simp

theorem table_key (encoded : List UInt8) :
    UpgradeObligationAlgebra.canonicalKey encoded = (decodeKeyWith base64Digit encoded).isSome := by
  have digit (byte : UInt8) : decide (UpgradeObligationAlgebra.valueAt byte ≠ UpgradeObligationAlgebra.invalidBase64) =
      (base64Digit byte).isSome := by
    rw [table_digit]
    cases read : base64Digit byte with
    | none => rfl
    | some digit =>
      have small := (char_digit read).1
      simp only [Option.getD_some,Option.isSome_some,decide_eq_true_eq]
      rintro rfl
      revert small
      decide
  have unused (byte : UInt8) : (UpgradeObligationAlgebra.valueAt byte &&& 0x0f == 0) =
      (base64Digit byte).any (fun digit => digit &&& 0x0f == 0) := by
    rw [table_digit]
    cases base64Digit byte with
    | none => rfl
    | some digit => rfl
  have last : encoded[21]?.any (fun byte => UpgradeObligationAlgebra.valueAt byte &&& 0x0f == 0) =
      (encoded[21]?.bind base64Digit).any (fun digit => digit &&& 0x0f == 0) := by
    cases encoded[21]? with
    | none => rfl
    | some byte => exact unused byte
  rw [← digitsCheck_key]
  unfold UpgradeObligationAlgebra.canonicalKey digitsCheck
  simp only [digit,last]
  by_cases size : encoded.length = 24
  · by_cases padded : encoded.drop 22 = ascii "=="
    · simp [size,padded]
    · simp [size,padded]
  · simp [size]

end Polyguard.Upgrade
