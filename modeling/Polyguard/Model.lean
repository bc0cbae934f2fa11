import Polyguard.Bytes.Ascii
import Polyguard.Bytes.Slices

/-! The shared data model of the protocol functions and their registry.
A `String` field of the source is the list of its UTF-8 bytes; reasons and limit
names, which are fixed words, stay texts. A `usize` or `u64` that only counts
bytes already in memory is a natural number. -/
namespace Polyguard
open Ascii

/-- The token bytes of a method, a field name or an extension name. -/
def isTchar (byte : UInt8) : Bool :=
  isAsciiAlphanumeric byte || byte == 0x21 || byte == 0x23 || byte == 0x24 || byte == 0x25 ||
    byte == 0x26 || byte == 0x27 || byte == 0x2a || byte == 0x2b || byte == 0x2d || byte == 0x2e ||
    byte == 0x5e || byte == 0x5f || byte == 0x60 || byte == 0x7c || byte == 0x7e

/-- The optional blanks around a value or a list member. -/
def isOws (byte : UInt8) : Bool := byte == 0x20 || byte == 0x09

theorem tchar_ascii (byte : UInt8) (token : isTchar byte) : isAscii byte := by
  revert token
  exact forall_byte (p := fun b => isTchar b → isAscii b) (by decide) byte

theorem name_chars {name : List UInt8} (tokens : name.all isTchar) :
    collectChars (name.map toAsciiLowercase) = name.map toAsciiLowercase := by
  apply collectChars_map_ascii
  intro b member
  exact toAsciiLowercase_ascii (tchar_ascii b (List.all_eq_true.mp tokens b member))

structure HeaderField where
  name : List UInt8
  value : List UInt8
deriving DecidableEq, Repr

structure HeaderBlock where
  fields : List HeaderField
  bytesConsumed : Nat
deriving DecidableEq, Repr

structure TrailerBlock where
  fields : List HeaderField
  bytesConsumed : Nat
deriving DecidableEq, Repr

inductive HttpVersion where
  | http11
deriving DecidableEq, Repr

structure RequestLine where
  method : List UInt8
  target : List UInt8
  version : HttpVersion
  bytesConsumed : Nat
deriving DecidableEq, Repr

inductive BodyFraming where
  | none
  | contentLength (length : Nat)
  | chunked
deriving DecidableEq, Repr

structure ChunkExtension where
  name : List UInt8
  value : Option (List UInt8)
deriving DecidableEq, Repr

structure ChunkMeta where
  size : Nat
  extensions : List ChunkExtension
  bytesConsumed : Nat
deriving DecidableEq, Repr

inductive TargetForm where
  | origin
  | absolute
  | authority
  | asterisk
deriving DecidableEq, Repr

structure NormalizedTarget where
  form : TargetForm
  scheme : Option (List UInt8)
  authority : Option (List UInt8)
  pathAndQuery : List UInt8
  routingPath : List UInt8
deriving DecidableEq, Repr

structure EffectiveAuthority where
  host : List UInt8
  port : Option Nat
deriving DecidableEq, Repr

structure SanitizedHeaders where
  fields : List HeaderField
  removedNames : List (List UInt8)
deriving DecidableEq, Repr

structure CanonicalRequestHead where
  bytes : List UInt8
  bodyFraming : BodyFraming
deriving DecidableEq, Repr

structure ForwardingPolicy where
  trustIncoming : Bool
  clientIp : List UInt8
  proto : List UInt8
  host : List UInt8
deriving DecidableEq, Repr

structure ForwardingResult where
  forwarded : List UInt8
  xForwardedFor : List UInt8
  xForwardedProto : List UInt8
  xForwardedHost : List UInt8
deriving DecidableEq, Repr

inductive PolyguardError where
  | incomplete
  | limitExceeded (limit : String) (max actual : Nat)
  | invalidRequestLine (reason : String)
  | unsupportedVersion
  | invalidMethod
  | invalidTarget (reason : String)
  | invalidHeader (index : Nat) (reason : String)
  | tooManyHeaders
  | invalidContentLength
  | conflictingContentLength
  | invalidTransferEncoding
  | ambiguousFraming
  | invalidChunk (reason : String)
  | invalidTrailer (reason : String)
  | missingHost
  | multipleHost
  | authorityMismatch
  | invalidAuthority
  | invalidRoute (reason : String)
  | noRoute
  | invalidForwardingInput
  | unsupportedUpgrade
  | serializationInvariant
deriving DecidableEq, Repr

abbrev Result (α : Type) := Except PolyguardError α

def invalidTarget {α : Type} (reason : String) : Result α := .error (.invalidTarget reason)

def invalidAuthority {α : Type} : Result α := .error .invalidAuthority

def u64Max : Nat := 18446744073709551615

/-- `u64::checked_mul`. -/
def checkedMul (left right : Nat) : Option Nat := if left * right ≤ u64Max then some (left * right) else none

/-- `u64::checked_add`. -/
def checkedAdd (left right : Nat) : Option Nat := if left + right ≤ u64Max then some (left + right) else none

/-- All implementations of one protocol function return the same result on this input. -/
def Agree {α β : Type} (implementations : List (α → β)) (input : α) : Prop :=
  ∀ f ∈ implementations, ∀ g ∈ implementations, f input = g input

instance {α β : Type} [DecidableEq β] (implementations : List (α → β)) (input : α) :
    Decidable (Agree implementations input) :=
  inferInstanceAs (Decidable (∀ f ∈ implementations, ∀ g ∈ implementations, f input = g input))

theorem agree_of_reference {α β : Type} {implementations : List (α → β)} {input : α} (reference : β)
    (refined : ∀ f ∈ implementations, f input = reference) : Agree implementations input := by
  intro f fMember g gMember
  rw [refined f fMember,refined g gMember]

theorem bind_success {α β : Type} {first : Result α} {next : α → Result β} {result : β}
    (ok : (first >>= next) = .ok result) : ∃ value, first = .ok value ∧ next value = .ok result := by
  cases first with
  | error error => simp [bind,Except.bind] at ok
  | ok value => exact ⟨value,rfl,ok⟩

@[simp,grind =] theorem bind_ok {α β : Type} (value : α) (next : α → Result β) :
    ((.ok value : Result α) >>= next) = next value := rfl

@[simp,grind =] theorem bind_error {α β : Type} (error : PolyguardError) (next : α → Result β) :
    ((.error error : Result α) >>= next) = .error error := rfl

@[simp] theorem bind_self {α : Type} (result : Result α) : (result >>= fun value => .ok value) = result := by
  cases result <;> rfl

theorem bind_congr_ok {α β : Type} {first : Result α} {left right : α → Result β}
    (same : ∀ value, first = .ok value → left value = right value) : (first >>= left) = (first >>= right) := by
  cases first with
  | error error => rfl
  | ok value => exact same value rfl

@[simp,grind =] theorem pure_result {α : Type} (value : α) : (pure value : Result α) = .ok value := rfl

@[simp,grind =] theorem invalidTarget_bind {α β : Type} (reason : String) (next : α → Result β) :
    (invalidTarget reason >>= next) = invalidTarget reason := rfl

@[simp,grind =] theorem invalidAuthority_bind {α β : Type} (next : α → Result β) :
    (invalidAuthority >>= next) = invalidAuthority := rfl

/-- A failing run of a fallible loop splits at its first failing element. -/
theorem foldlM_error_iff {α β : Type} (step : β → α → Result β) (items : List α) (state : β)
    (error : PolyguardError) :
    items.foldlM step state = .error error ↔
      ∃ before item after reached, items = before ++ item :: after ∧
        before.foldlM step state = .ok reached ∧ step reached item = .error error := by
  induction items generalizing state with
  | nil => simp
  | cons first items ih =>
    rw [List.foldlM_cons]
    cases stepped : step state first with
    | error raised =>
      constructor
      · intro failed
        cases failed
        exact ⟨[],first,items,state,rfl,rfl,stepped⟩
      · rintro ⟨before,item,after,reached,same,ran,failed⟩
        cases before with
        | nil =>
          obtain ⟨rfl,rfl⟩ := List.cons_eq_cons.mp same
          cases ran
          rw [stepped] at failed
          exact failed
        | cons head before =>
          obtain ⟨rfl,rfl⟩ := List.cons_eq_cons.mp same
          rw [List.foldlM_cons,stepped] at ran
          cases ran
    | ok next =>
      rw [bind_ok,ih next]
      constructor
      · rintro ⟨before,item,after,reached,rfl,ran,failed⟩
        exact ⟨first :: before,item,after,reached,rfl,by rw [List.foldlM_cons,stepped,bind_ok,ran],failed⟩
      · rintro ⟨before,item,after,reached,same,ran,failed⟩
        cases before with
        | nil =>
          obtain ⟨rfl,rfl⟩ := List.cons_eq_cons.mp same
          cases ran
          rw [stepped] at failed
          cases failed
        | cons head before =>
          obtain ⟨rfl,rfl⟩ := List.cons_eq_cons.mp same
          rw [List.foldlM_cons,stepped,bind_ok] at ran
          exact ⟨before,item,after,reached,rfl,ran,failed⟩

end Polyguard
