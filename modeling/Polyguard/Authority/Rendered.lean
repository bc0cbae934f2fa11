import Polyguard.Authority.Soundness
import Polyguard.Proxy.Request
import Polyguard.Bytes.AddressDisplay

/-! The text of a reconciled authority.
It is a host name in lowercase or a bracketed literal, with the digits of a port behind a
colon where one is left; every later stage reads this text. -/
namespace Polyguard.AuthorityAgreement
open Ascii Slices Decimal Address TargetBytes RequestTarget

section Names

theorem LowerLabel.valid {label : List UInt8} (lower : LowerLabel label) : validDnsLabel label = true := by
  have bytes : label.all isLabelByte := by
    rw [List.all_eq_true]
    intro b member
    exact forall_byte (p := fun b => isAsciiLowercase b ∨ isAsciiDigit b ∨ b = 0x2d → isLabelByte b) (by decide) b
      (lower.bytes b member)
  have some : label.isEmpty = false := List.isEmpty_eq_false_iff.mpr (List.length_pos_iff.mp lower.length.1)
  have first := lower.first
  have last := lower.last
  simp [validDnsLabel,startsWith,endsWith,some,lower.length.2,bytes,first,last]

variable {name : List UInt8} (lower : LowerName name)
include lower

theorem LowerName.all_valid : (name.splitOn 0x2e).all validDnsLabel = true :=
  List.all_eq_true.mpr fun label member => (lower.labels label member).valid

theorem LowerName.accepted : (name.splitOn 0x2e).any refusesLabel = false := by
  rw [(refused_labels name).1,lower.all_valid]
  rfl

theorem LowerName.some : name ≠ [] := by
  rintro rfl
  have := (lower.labels [] (by rw [List.splitOn_nil]; exact List.mem_singleton_self [])).length.1
  exact absurd this (by decide)

theorem LowerName.bytes : ∀ b ∈ name, isLabelByte b ∨ b = 0x2e := by
  intro b member
  have inside := name_bytes lower.all_valid b member
  rwa [Bool.or_eq_true,beq_iff_eq] at inside

theorem LowerName.inside : ∀ b ∈ name, isAuthorityByte b := by
  intro b member
  refine label_inside b ?_
  rw [Bool.or_eq_true,beq_iff_eq]
  exact lower.bytes b member

theorem LowerName.absent {byte : UInt8} (outside : ¬ (isLabelByte byte ∨ byte = 0x2e)) : byte ∉ name :=
  fun member => outside (lower.bytes byte member)

theorem LowerName.unbracketed (rest : List UInt8) : startsWith 0x5b (name ++ rest) = false := by
  obtain ⟨first,tail,rfl⟩ := List.exists_cons_of_ne_nil lower.some
  have other : first ≠ 0x5b := by
    rintro rfl
    exact lower.absent (by decide) List.mem_cons_self
  simp [startsWith,other]

theorem LowerName.withoutDot : stripSuffix 0x2e name = none := by
  unfold stripSuffix
  rw [if_neg]
  rw [beq_iff_eq]
  exact lower.undotted

end Names

section Texts

/-- The text of a canonical host, and of its port. -/
inductive Rendered : List UInt8 → Prop where
  | name {name : List UInt8} (lower : LowerName name) : Rendered name
  | namePort {name : List UInt8} (lower : LowerName name) {port : Nat} (range : 1 ≤ port ∧ port ≤ 65535) :
      Rendered (name ++ 0x3a :: decimal port)
  | literal {address : List UInt8} (accepted : isIpv6 address) : Rendered (0x5b :: (address ++ [0x5d]))
  | literalPort {address : List UInt8} (accepted : isIpv6 address) {port : Nat} (range : 1 ≤ port ∧ port ≤ 65535) :
      Rendered (0x5b :: (address ++ 0x5d :: 0x3a :: decimal port))

theorem rendered_text {authority : EffectiveAuthority} (host : CanonicalHost authority.host)
    (range : ∀ port ∈ authority.port, 1 ≤ port ∧ port ≤ 65535) : Rendered (Proxy.authorityString authority) := by
  obtain ⟨text,port⟩ := authority
  unfold Proxy.authorityString
  rcases host with lower | ⟨address,rfl,accepted,-⟩
  · cases port with
    | none => exact .name lower
    | some port =>
      have written : text ++ ascii ":" ++ decimal port = text ++ 0x3a :: decimal port := by
        simp [show ascii ":" = [0x3a] from by decide]
      exact (congrArg Rendered written).mpr (.namePort lower (range port rfl))
  · cases port with
    | none => exact .literal accepted
    | some port =>
      have written : (0x5b :: (address ++ [0x5d])) ++ ascii ":" ++ decimal port = 0x5b :: (address ++ 0x5d :: 0x3a :: decimal port) := by
        simp [show ascii ":" = [0x3a] from by decide]
      exact (congrArg Rendered written).mpr (.literalPort accepted (range port rfl))

theorem decimal_colonless (port : Nat) : (0x3a : UInt8) ∉ decimal port :=
  fun member => absurd (decimal_digits port 0x3a member) (by decide)

theorem decimal_port {port : Nat} (range : 1 ≤ port ∧ port ≤ 65535) : parseUnsigned u16Max (decimal port) = some port := by
  rw [parseUnsigned_digits (decimal_ne_nil port) (decimal_digits port),digitsValue_decimal,if_pos (by unfold u16Max; omega)]

theorem decimal_plain (port : Nat) : ((decimal port).isEmpty || !(decimal port).all isAsciiDigit) = false := by
  rw [List.isEmpty_eq_false_iff.mpr (decimal_ne_nil port),List.all_eq_true.mpr (decimal_digits port)]
  rfl

theorem decimal_short {port : Nat} (range : 1 ≤ port ∧ port ≤ 65535) : (decimal port).length ≤ 5 := by
  rw [decimal,List.length_map]
  exact (Nat.length_toDigits_le_iff (by decide) (by decide)).mpr (by omega)

section Literals
variable {address : List UInt8} (accepted : isIpv6 address)
include accepted

theorem literal_some : address.isEmpty = false := by
  cases address with
  | nil => rw [isIpv6_nil] at accepted; cases accepted
  | cons first rest => rfl

theorem literal_absent {byte : UInt8} (outside : isAddressByte byte = false) : byte ∉ address := by
  intro member
  rw [isIpv6_bytes accepted byte member] at outside
  cases outside

theorem literal_inside : ∀ b ∈ address, isAuthorityByte b := fun b member =>
  forall_byte (p := fun b => isAddressByte b → isAuthorityByte b) (by decide) b (isIpv6_bytes accepted b member)

theorem literal_short : address.length ≤ 274 := by
  obtain ⟨groups,parsed⟩ := Option.isSome_iff_exists.mp accepted
  unfold parseIpv6 parseWith at parsed
  split at parsed
  · rename_i value read
    exact (Nat.zero_add 274) ▸ within_ipv6 address value [] read
  · cases parsed

end Literals

theorem Rendered.inside {text : List UInt8} (rendered : Rendered text) : ∀ b ∈ text, isAuthorityByte b := by
  have digits (port : Nat) : ∀ b ∈ decimal port, isAuthorityByte b := fun b member => digit_inside b (decimal_digits port b member)
  cases rendered with
  | name lower => exact lower.inside
  | namePort lower range =>
    intro b member
    rcases List.mem_append.mp member with front | back
    · exact lower.inside b front
    · rcases List.mem_cons.mp back with rfl | within
      · decide
      · exact digits _ b within
  | literal accepted =>
    intro b member
    simp only [List.mem_cons,List.mem_append,List.not_mem_nil,or_false] at member
    rcases member with rfl | within | rfl
    · decide
    · exact literal_inside accepted b within
    · decide
  | literalPort accepted range =>
    intro b member
    simp only [List.mem_cons,List.mem_append] at member
    rcases member with rfl | within | rfl | rfl | within
    · decide
    · exact literal_inside accepted b within
    · decide
    · decide
    · exact digits _ b within

theorem Rendered.some {text : List UInt8} (rendered : Rendered text) : text ≠ [] := by
  cases rendered with
  | name lower => exact lower.some
  | namePort lower range => simp
  | literal accepted => simp
  | literalPort accepted range => simp

theorem Rendered.short {text : List UInt8} (rendered : Rendered text) : text.length ≤ 282 := by
  cases rendered with
  | name lower => exact lower.length.trans (by decide)
  | namePort lower range =>
    have := lower.length
    have := decimal_short range
    rw [List.length_append,List.length_cons]
    omega
  | literal accepted =>
    have := literal_short accepted
    rw [List.length_cons,List.length_append,List.length_singleton]
    omega
  | literalPort accepted range =>
    have := literal_short accepted
    have := decimal_short range
    rw [List.length_cons,List.length_append,List.length_cons,List.length_cons]
    omega

/-- An authority that some implementations of the three stages return for some request. -/
def Reconciled (authority : EffectiveAuthority) : Prop :=
  ∃ normalize ∈ requestTargetImplementations, ∃ request target, normalize request = .ok target ∧
    ∃ parse ∈ headerImplementations, ∃ input headers, parse input = .ok headers ∧
      ∃ reconcile ∈ authorityImplementations, reconcile target headers = .ok authority

theorem Reconciled.canonical {authority : EffectiveAuthority} (reconciled : Reconciled authority) :
    CanonicalHost authority.host ∧ ∀ port ∈ authority.port, 1 ≤ port ∧ port ≤ 65535 := by
  obtain ⟨normalize,normalizer,request,target,normalized,parse,parser,input,headers,parsed,reconcile,reconciler,reconciled⟩ := reconciled
  obtain ⟨named,fallback,shape⟩ := normalized_shaped normalizer normalized
  have accepted := reconciled_reference reconciler shape (parsed_canonical parser parsed) reconciled
  obtain ⟨host,-,accepted⟩ := bind_success accepted
  obtain ⟨named,namedRead,accepted⟩ := bind_success accepted
  obtain ⟨header,headerRead,accepted⟩ := bind_success accepted
  have canonical {text : List UInt8} {found : Authority} (read : endpoint text = .ok found) :
      CanonicalHost (effective fallback found).host ∧ ∀ port ∈ (effective fallback found).port, 1 ≤ port ∧ port ≤ 65535 :=
    have facts := @effective_canonical fallback _ _ read
    ⟨facts.1,facts.2.1⟩
  rcases source_endpoint namedRead with ⟨-,rfl⟩ | ⟨text,named,-,rfl,namedText⟩
  · rcases source_endpoint headerRead with ⟨-,rfl⟩ | ⟨value,header,-,rfl,headerText⟩
    · cases accepted
    · cases accepted
      exact canonical headerText
  · rcases source_endpoint headerRead with ⟨-,rfl⟩ | ⟨value,header,-,rfl,headerText⟩
    · cases accepted
      exact canonical namedText
    · unfold merge at accepted
      dsimp only at accepted
      split at accepted
      · cases accepted
        exact canonical namedText
      · cases accepted

theorem Reconciled.rendered {authority : EffectiveAuthority} (reconciled : Reconciled authority) :
    Rendered (Proxy.authorityString authority) := rendered_text reconciled.canonical.1 reconciled.canonical.2

def namedHost : EffectiveAuthority := ⟨ascii "example.test",none⟩

theorem namedHost_reconciled : Reconciled namedHost :=
  ⟨RequestTargetRules.normalizeRequestTarget,by simp [requestTargetImplementations],⟨ascii "get",ascii "/",.http11,0⟩,
    ⟨.origin,none,none,ascii "/",ascii "/"⟩,by decide +kernel,HeaderTypedCursor.parseHeaderSection,by simp [headerImplementations],
    ascii "host: example.test\r\n\r\n",⟨[⟨ascii "host",ascii "example.test"⟩],22⟩,by decide +kernel,
    AuthorityPhases.reconcileAuthority,by simp [authorityImplementations],by decide +kernel⟩

end Texts

end Polyguard.AuthorityAgreement
