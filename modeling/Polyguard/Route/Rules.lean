import Polyguard.Route.Implementations
import Polyguard.RequestTarget.Authorities

/-! What a single route rule must look like.
The five checks of a host, of an upstream name and of a prefix accept the same
texts, but for the length of a prefix, which two of them do not bound. -/
namespace Polyguard.Route
open Ascii Slices Address TargetBytes

def isNameByte (byte : UInt8) : Bool := isAsciiLowercase byte || isAsciiDigit byte || byte == 0x2d

def isLabel (label : List UInt8) : Bool :=
  !label.isEmpty && label.length ≤ 63 && !startsWith 0x2d label && !endsWith 0x2d label && label.all isNameByte

def isHostName (host : List UInt8) : Bool := host.length ≤ 253 && (host.splitOn 0x2e).all isLabel

def isHostLiteral (address : List UInt8) : Bool := !address.any isAsciiUppercase && isIpv6 address

/-- A lowercase name, or a lowercase address in brackets. -/
def isHost (host : List UInt8) : Bool :=
  if startsWith 0x5b host && endsWith 0x5d host then isHostLiteral (host.drop 1).dropLast else isHostName host

def isEscapable (byte : UInt8) : Bool := !(byte ≤ 31 || byte == 127 || byte == 0x5c || isUnreserved byte)

def nibble (byte : UInt8) : Option UInt8 :=
  if isAsciiDigit byte then some (byte - 0x30)
  else if 0x41 ≤ byte && byte ≤ 0x46 then some (byte - 0x41 + 10)
  else none

/-- An escape of upper-case digits that had to be written as one. -/
def isEscape (high low : UInt8) : Bool :=
  match nibble high,nibble low with
  | some high,some low => isEscapable (joinNibbles high low)
  | _,_ => false

def isPathByte (byte : UInt8) : Bool := isAsciiGraphic byte && !(byte == 0x3f || byte == 0x23 || byte == 0x5c)

def isDots (segment : List UInt8) : Bool := segment == ascii "." || segment == ascii ".."

/-- A normalized absolute path without a final slash, of any length. -/
def isPrefix (value : List UInt8) : Bool :=
  startsWith 0x2f value && (value == [0x2f] || !endsWith 0x2f value) && scanPath isEscape isPathByte value &&
    !(value.splitOn 0x2f).any isDots

def prefixLimit : Nat := 8192

def isUpstream (name : List UInt8) : Bool :=
  1 ≤ name.length && name.length ≤ 64 &&
    name.all fun byte => isAsciiAlphanumeric byte || byte == 0x5f || byte == 0x2e || byte == 0x2d

/-- The first requirement that a rule misses. -/
def ruleFault (bounded : Bool) (rule : RouteRule) : Option String :=
  if !isHost rule.host then some "invalid_host"
  else if !(isPrefix rule.pathPrefix && (!bounded || rule.pathPrefix.length ≤ prefixLimit)) then
    some "invalid_path_prefix"
  else if !isUpstream rule.upstream then some "invalid_upstream"
  else none

/-- A prefix applies to its own path and to everything below it. -/
def covers (value path : List UInt8) : Bool :=
  value == [0x2f] || (stripPrefix value path).any fun remainder => remainder.isEmpty || startsWith 0x2f remainder

/-- What follows the checks of a rule, unless one of them fails. -/
def afterChecks {α : Type} (bounded : Bool) (rule : RouteRule) (next : Result α) : Result α :=
  match ruleFault bounded rule with
  | some reason => invalidRoute reason
  | none => next

theorem hostName_bytes {host : List UInt8} (named : isHostName host) : ∀ b ∈ host, isNameByte b || b == 0x2e := by
  intro b member
  simp only [isHostName,Bool.and_eq_true] at named
  rcases splitOn_mem 0x2e member with rfl | ⟨label,among,within⟩
  · decide
  · have valid := List.all_eq_true.mp named.2 label among
    simp only [isLabel,Bool.and_eq_true] at valid
    simp [List.all_eq_true.mp valid.2 b within]

theorem nameByte_plain (byte : UInt8) (name : isNameByte byte || byte == 0x2e) :
    isAscii byte ∧ isAsciiUppercase byte = false ∧ byte ≠ 0x5b ∧ byte ≠ 0x5d := by
  revert name
  exact forall_byte (p := fun b => isNameByte b || b == 0x2e →
    isAscii b ∧ isAsciiUppercase b = false ∧ b ≠ 0x5b ∧ b ≠ 0x5d) (by decide) byte

theorem hostName_guards {host : List UInt8} (named : isHostName host) :
    host.all isAscii ∧ host.all (fun byte => !isAsciiUppercase byte) ∧ endsWith 0x2e host = false ∧
      startsWith 0x5b host = false ∧ endsWith 0x5d host = false ∧ host ≠ [] := by
  have each := fun b member => nameByte_plain b (hostName_bytes named b member)
  refine ⟨List.all_eq_true.mpr fun b member => (each b member).1,
    List.all_eq_true.mpr fun b member => by simp [(each b member).2.1],?_,?_,?_,?_⟩
  · rw [Bool.eq_false_iff]
    intro dotted
    obtain ⟨init,rfl⟩ := List.getLast?_eq_some_iff.mp (by simpa [endsWith] using dotted)
    simp only [isHostName,List.splitOn_append_cons_self,List.splitOn_nil,List.all_append,Bool.and_eq_true] at named
    exact absurd named.2.2 (by decide)
  · rw [Bool.eq_false_iff]
    intro opened
    exact (each 0x5b (List.mem_of_head? (by simpa [startsWith] using opened))).2.2.1 rfl
  · rw [Bool.eq_false_iff]
    intro closed
    exact (each 0x5d (List.mem_of_getLast? (by simpa [endsWith] using closed))).2.2.2 rfl
  · rintro rfl
    exact absurd named (by decide)

theorem bracketed {host : List UInt8} (brackets : (startsWith 0x5b host && endsWith 0x5d host) = true) :
    ∃ address, host = 0x5b :: (address ++ [0x5d]) := by
  obtain ⟨opened,closed⟩ : startsWith 0x5b host = true ∧ endsWith 0x5d host = true := by simpa using brackets
  obtain ⟨init,rfl⟩ := List.getLast?_eq_some_iff.mp (by simpa [endsWith] using closed)
  cases init with
  | nil => simp [startsWith] at opened
  | cons first address =>
    obtain rfl : first = 0x5b := by simpa [startsWith] using opened
    exact ⟨address,rfl⟩

theorem stripSuffix_open {host : List UInt8} (open' : endsWith 0x5d host = false) :
    stripSuffix 0x5d (host.drop 1) = none := by
  unfold stripSuffix
  rw [if_neg]
  intro closed
  obtain ⟨init,last⟩ := List.getLast?_eq_some_iff.mp (by simpa using closed)
  cases host with
  | nil => simp at last
  | cons first rest =>
    rw [List.tail_cons] at last
    rw [last,endsWith,← List.cons_append,List.getLast?_concat] at open'
    simp at open'

theorem literal_guards (address : List UInt8) :
    (!address.isEmpty && !address.contains 0x25 && !address.any isAsciiUppercase && isIpv6 address) =
      isHostLiteral address := by
  unfold isHostLiteral
  cases literal : isIpv6 address with
  | false => simp
  | true =>
    obtain ⟨zone,some⟩ := RequestTarget.ipv6_guards literal
    rw [zone,some]
    simp

theorem direct_label (label : List UInt8) :
    (if label.isEmpty then false
      else if label.length > 63 then false
      else if startsWith 0x2d label || endsWith 0x2d label then false
      else label.all fun byte => isAsciiLowercase byte || isAsciiDigit byte || byte == 0x2d) = isLabel label := by
  unfold isLabel
  by_cases narrow : label.length ≤ 63
  · rw [decide_eq_true narrow]
    simp only [Nat.not_lt.mpr narrow,if_false]
    cases label.isEmpty <;> cases startsWith 0x2d label <;> cases endsWith 0x2d label <;> rfl
  · rw [decide_eq_false narrow,if_pos (Nat.not_le.mp narrow)]
    simp

theorem hostName_guarded (host : List UInt8) (guard : Bool) (implied : isHostName host = true → guard = true) :
    (guard && (host.splitOn 0x2e).all isLabel && decide (host.length ≤ 253)) = isHostName host := by
  cases named : isHostName host with
  | true =>
    rw [implied named]
    simp only [isHostName,Bool.and_eq_true] at named
    simp only [named.1,named.2,Bool.and_self]
  | false =>
    simp only [isHostName,Bool.and_eq_false_iff] at named
    rcases named with wide | bad
    · simp only [wide,Bool.and_false]
    · simp only [bad,Bool.and_false,Bool.false_and]

theorem direct_dns (host : List UInt8) : RouteDirect.canonicalDns host = isHostName host := by
  unfold RouteDirect.canonicalDns
  have labels : (host.splitOn 0x2e).all (fun label => if label.isEmpty then false
      else if label.length > 63 then false
      else if startsWith 0x2d label || endsWith 0x2d label then false
      else label.all fun byte => isAsciiLowercase byte || isAsciiDigit byte || byte == 0x2d) =
      (host.splitOn 0x2e).all isLabel := by
    congr 1
    exact funext direct_label
  have guarded := hostName_guarded host (decide (1 ≤ host.length) && (host.all isAscii && !endsWith 0x2e host)) (by
    intro named
    obtain ⟨small,-,undotted,-,-,some⟩ := hostName_guards named
    simp [small,undotted,Nat.one_le_iff_ne_zero,some])
  rw [labels,← guarded]
  generalize (host.splitOn 0x2e).all isLabel = valid
  generalize host.all isAscii = small
  generalize endsWith 0x2e host = dotted
  cases valid <;> cases small <;> cases dotted <;> simp

/-- A host is an address in brackets, or has no bracket to strip and is judged as a name. -/
theorem host_cases (host : List UInt8) :
    (∃ address, host = 0x5b :: (address ++ [0x5d]) ∧ stripSuffix 0x5d (host.drop 1) = some address ∧
      startsWith 0x5b host = true ∧ endsWith 0x5d host = true ∧ isHost host = isHostLiteral address) ∨
    ((startsWith 0x5b host && endsWith 0x5d host) = false ∧
      (if startsWith 0x5b host then stripSuffix 0x5d (host.drop 1) else none) = none ∧ isHost host = isHostName host) := by
  cases brackets : startsWith 0x5b host && endsWith 0x5d host with
  | true =>
    obtain ⟨address,rfl⟩ := bracketed brackets
    obtain ⟨opened,closed⟩ : startsWith 0x5b (0x5b :: (address ++ [0x5d])) = true ∧
      endsWith 0x5d (0x5b :: (address ++ [0x5d])) = true := by simpa using brackets
    exact .inl ⟨address,rfl,by simp [stripSuffix],opened,closed,by simp [isHost,opened,closed]⟩
  | false =>
    refine .inr ⟨rfl,?_,by rw [isHost,brackets]; rfl⟩
    cases opened : startsWith 0x5b host with
    | false => rfl
    | true =>
      rw [opened,Bool.true_and] at brackets
      exact stripSuffix_open brackets

theorem unnamed_of_open {host : List UInt8} (opened : startsWith 0x5b host = true) : isHostName host = false := by
  rw [Bool.eq_false_iff]
  intro named
  rw [(hostName_guards named).2.2.2.1] at opened
  cases opened

theorem unnamed_of_closed {host : List UInt8} (closed : endsWith 0x5d host = true) : isHostName host = false := by
  rw [Bool.eq_false_iff]
  intro named
  rw [(hostName_guards named).2.2.2.2.1] at closed
  cases closed

theorem direct_host (host : List UInt8) :
    RouteDirect.canonicalHost host = if isHost host then .ok host else invalidRoute "invalid_host" := by
  unfold RouteDirect.canonicalHost
  rcases host_cases host with ⟨address,-,cut,opened,-,same⟩ | ⟨-,uncut,same⟩
  · rw [opened,cut,same]
    simp only [literal_guards,if_true]
  · rw [same,direct_dns]
    cases opened : startsWith 0x5b host with
    | true =>
      rw [opened,if_pos rfl] at uncut
      rw [uncut,unnamed_of_open opened]
      rfl
    | false => rfl

theorem pipeline_label (label : List UInt8) : RouteRulePipeline.canonicalDnsLabel label = isLabel label := by
  unfold RouteRulePipeline.canonicalDnsLabel isLabel
  cases label with
  | nil => rfl
  | cons first rest =>
    simp only [List.length_cons,Nat.le_add_left,decide_true,List.isEmpty_cons,Bool.not_false]
    rfl

theorem pipeline_host (rule : RouteRule) :
    RouteRulePipeline.validateRuleHost rule = if isHost rule.host then .ok () else invalidRoute "invalid_host" := by
  unfold RouteRulePipeline.validateRuleHost
  rcases host_cases rule.host with ⟨address,-,cut,opened,-,same⟩ | ⟨-,uncut,same⟩
  · rw [opened,cut,same]
    simp only [literal_guards,if_true]
  · have labels : RouteRulePipeline.canonicalDnsLabel = isLabel := funext pipeline_label
    have guarded := hostName_guarded rule.host
      (decide (1 ≤ rule.host.length) && rule.host.all isAscii && !endsWith 0x2e rule.host) (by
        intro named
        obtain ⟨small,-,undotted,-,-,some⟩ := hostName_guards named
        simp [small,undotted,Nat.one_le_iff_ne_zero,some])
    rw [uncut,same,labels,← guarded]
    generalize rule.host.all isAscii = small
    generalize endsWith 0x2e rule.host = dotted
    generalize (rule.host.splitOn 0x2e).all isLabel = valid
    cases small <;> cases dotted <;> cases valid <;> simp

/-- A loop of checks that all fail with one reason. -/
theorem forM_guard {α : Type} {check : α → Result Unit} (accepts : α → Bool) {reason : String}
    (checked : ∀ item, check item = if accepts item then .ok () else invalidRoute reason) (items : List α) :
    items.forM check = if items.all accepts then .ok () else invalidRoute reason := by
  induction items with
  | nil => rfl
  | cons item items ih =>
    have first : (item :: items).forM check = (check item >>= fun _ => items.forM check) := rfl
    rw [first,checked item,ih,List.all_cons]
    cases accepts item <;> rfl

theorem bounded_label (label : List UInt8) :
    RouteBoundedMatch.validateLabel label = if isLabel label then .ok () else invalidRoute "invalid_host" := by
  unfold RouteBoundedMatch.validateLabel isLabel
  have bytes : (label.forM fun byte : UInt8 =>
      if (0x61 ≤ byte && byte ≤ 0x7a) || (0x30 ≤ byte && byte ≤ 0x39) || byte == 0x2d then .ok ()
      else invalidRoute "invalid_host") = if label.all isNameByte then .ok () else invalidRoute "invalid_host" :=
    forM_guard isNameByte (fun _ => rfl) label
  rw [bytes]
  by_cases narrow : label.length ≤ 63
  · rw [decide_eq_true narrow,if_neg (Nat.not_lt.mpr narrow)]
    cases label.isEmpty <;> cases startsWith 0x2d label <;> cases endsWith 0x2d label <;> rfl
  · rw [decide_eq_false narrow,if_pos (Nat.not_le.mp narrow)]
    simp

theorem bounded_dns (host : List UInt8) :
    RouteBoundedMatch.validateDns host = if isHostName host then .ok () else invalidRoute "invalid_host" := by
  unfold RouteBoundedMatch.validateDns
  have guarded := hostName_guarded host (decide (1 ≤ host.length) && host.all isAscii && !endsWith 0x2e host) (by
    intro named
    obtain ⟨small,-,undotted,-,-,some⟩ := hostName_guards named
    simp [small,undotted,Nat.one_le_iff_ne_zero,some])
  rw [forM_guard isLabel bounded_label,← guarded]
  generalize (host.splitOn 0x2e).all isLabel = valid
  generalize host.all isAscii = small
  generalize endsWith 0x2e host = dotted
  cases valid <;> cases small <;> cases dotted <;> simp

def boundedHost (host : List UInt8) : RouteBoundedMatch.HostName := if startsWith 0x5b host then .ipv6 host else .dns host

theorem boundedHost_matches (host authority : List UInt8) :
    (boundedHost host).matches authority = eqIgnoreAsciiCase host authority := by
  unfold boundedHost
  cases startsWith 0x5b host <;> rfl

theorem bounded_host (host : List UInt8) :
    RouteBoundedMatch.HostName.parse host =
      if isHost host then .ok (boundedHost host) else invalidRoute "invalid_host" := by
  unfold RouteBoundedMatch.HostName.parse boundedHost
  rcases host_cases host with ⟨address,rfl,-,opened,closed,same⟩ | ⟨brackets,-,same⟩
  · have cut : ((0x5b :: (address ++ [0x5d])).drop 1).take (((0x5b :: (address ++ [0x5d])).drop 1).length - 1) =
        address := by simp
    rw [opened,closed,same]
    simp only [cut]
    rw [← literal_guards]
    cases address.isEmpty <;> cases address.contains 0x25 <;> cases address.any isAsciiUppercase <;>
      cases isIpv6 address <;> rfl
  · rw [same]
    cases opened : startsWith 0x5b host with
    | true =>
      rw [opened,Bool.true_and] at brackets
      rw [brackets,unnamed_of_open opened]
      rfl
    | false =>
      cases closed : endsWith 0x5d host with
      | true =>
        rw [unnamed_of_closed closed]
        rfl
      | false =>
        simp only [bounded_dns]
        cases isHostName host <;> rfl

theorem address_lowercase (byte : UInt8) (address : isAddressByte byte) :
    (isAsciiDigit byte || (0x61 ≤ byte && byte ≤ 0x66) || byte == 0x3a || byte == 0x2e) = !isAsciiUppercase byte := by
  revert address
  exact forall_byte (p := fun b => isAddressByte b →
    (isAsciiDigit b || (0x61 ≤ b && b ≤ 0x66) || b == 0x3a || b == 0x2e) = !isAsciiUppercase b) (by decide) byte

theorem typed_literal (address : List UInt8) :
    (!address.isEmpty &&
      address.all (fun byte => isAsciiDigit byte || (0x61 ≤ byte && byte ≤ 0x66) || byte == 0x3a || byte == 0x2e) &&
      isIpv6 address) = isHostLiteral address := by
  rw [← literal_guards]
  cases literal : isIpv6 address with
  | false => simp
  | true =>
    have lower : address.all (fun byte => isAsciiDigit byte || (0x61 ≤ byte && byte ≤ 0x66) || byte == 0x3a ||
        byte == 0x2e) = address.all fun byte => !isAsciiUppercase byte := by
      rw [Bool.eq_iff_iff,List.all_eq_true,List.all_eq_true]
      apply forall₂_congr
      intro byte member
      rw [address_lowercase byte (isIpv6_bytes literal byte member)]
    rw [lower,(RequestTarget.ipv6_guards literal).1,List.not_any_eq_all_not]
    simp

theorem typed_host (host : List UInt8) :
    RouteTypedArithmetic.canonicalHost host = if isHost host then .ok host else invalidRoute "invalid_host" := by
  unfold RouteTypedArithmetic.canonicalHost
  rcases host_cases host with ⟨address,rfl,-,opened,closed,same⟩ | ⟨brackets,-,same⟩
  · have cut : slice (0x5b :: (address ++ [0x5d])) 1 ((0x5b :: (address ++ [0x5d])).length - 1) = address := by
      simp [slice]
    rw [opened,closed,same]
    simp only [cut,typed_literal,Bool.and_self,if_true]
  · have labels : (host.splitOn 0x2e).all (fun label => !label.isEmpty && label.length ≤ 63 && !startsWith 0x2d label &&
        !endsWith 0x2d label && label.all fun byte => isAsciiLowercase byte || isAsciiDigit byte || byte == 0x2d) =
        (host.splitOn 0x2e).all isLabel := rfl
    rw [brackets,same,labels]
    have guarded := hostName_guarded host (!host.isEmpty) (by
      intro named
      simp [(hostName_guards named).2.2.2.2.2])
    rw [← guarded]
    generalize (host.splitOn 0x2e).all isLabel = valid
    by_cases short : host.length ≤ 253
    · cases host.isEmpty <;> cases valid <;> simp [short]
    · cases host.isEmpty <;> simp [short]

theorem table_host (host : List UInt8) : RouteImmutableTable.canonicalHost host = isHost host := by
  unfold RouteImmutableTable.canonicalHost
  rcases host_cases host with ⟨address,-,cut,opened,-,same⟩ | ⟨-,uncut,same⟩
  · rw [opened,cut,same,← literal_guards]
    simp only [if_true]
    cases literal : isIpv6 address with
    | false => simp
    | true =>
      rw [(RequestTarget.ipv6_guards literal).1,List.not_any_eq_all_not]
      simp
  · have labels : (host.splitOn 0x2e).all (fun label => !label.isEmpty && label.length ≤ 63 && !startsWith 0x2d label &&
        !endsWith 0x2d label && label.all fun byte => isAsciiLowercase byte || isAsciiDigit byte || byte == 0x2d) =
        (host.splitOn 0x2e).all isLabel := rfl
    have guarded := hostName_guarded host (!host.isEmpty && host.all fun byte => !isAsciiUppercase byte) (by
      intro named
      obtain ⟨-,lower,-,-,-,some⟩ := hostName_guards named
      rw [lower]
      simp [some])
    rw [uncut,same,← guarded]
    simp only [labels]
    generalize (host.splitOn 0x2e).all isLabel = valid
    generalize (host.all fun byte => !isAsciiUppercase byte) = lower
    cases host.isEmpty <;> cases lower <;> cases valid <;> simp

theorem escape_eq (digit : UInt8 → Bool) {value : UInt8 → UInt8} (digits : ∀ b, digit b = (nibble b).isSome)
    (values : ∀ b, nibble b = none ∨ nibble b = some (value b)) (high low : UInt8) :
    (if digit high && digit low then isEscapable (joinNibbles (value high) (value low)) else false) =
      isEscape high low := by
  unfold isEscape
  rw [digits high,digits low]
  rcases values high with absent | first
  · simp [absent]
  · rcases values low with absent | second
    · simp [absent]
    · simp [first,second]

theorem nibble_sum (high low : UInt8) (small : high < 16 ∧ low < 16) : high * 16 + low = joinNibbles high low := by
  have table : ∀ n : Fin 16, ∀ m : Fin 16,
      UInt8.ofNat n.val * 16 + UInt8.ofNat m.val = joinNibbles (UInt8.ofNat n.val) (UInt8.ofNat m.val) := by
    decide +kernel
  have upper : high.toNat < 16 := UInt8.lt_iff_toNat_lt.mp small.1
  have lower : low.toNat < 16 := UInt8.lt_iff_toNat_lt.mp small.2
  simpa using table ⟨high.toNat,upper⟩ ⟨low.toNat,lower⟩

theorem direct_escape : RouteDirect.canonicalEscape = isEscape := by
  funext high low
  have decoded (byte : UInt8) : (if byte ≤ 31 || byte == 127 || byte == 0x5c then false
      else if isAsciiAlphanumeric byte || byte == 0x2d || byte == 0x2e || byte == 0x5f || byte == 0x7e then false
      else true) = isEscapable byte :=
    forall_byte (p := fun b => (if b ≤ 31 || b == 127 || b == 0x5c then false
      else if isAsciiAlphanumeric b || b == 0x2d || b == 0x2e || b == 0x5f || b == 0x7e then false
      else true) = isEscapable b) (by decide) byte
  unfold RouteDirect.canonicalEscape
  simp only [decoded]
  exact escape_eq RouteDirect.isUpperHex
    (forall_byte (p := fun b => RouteDirect.isUpperHex b = (nibble b).isSome) (by decide))
    (forall_byte (p := fun b => nibble b = none ∨ nibble b = some (RouteDirect.hexValue b)) (by decide))
    high low

theorem pipeline_escape : RouteRulePipeline.validateEscape = isEscape := by
  funext high low
  have digits : ∀ b, RouteRulePipeline.isCanonicalHex b = (nibble b).isSome :=
    forall_byte (p := fun b => RouteRulePipeline.isCanonicalHex b = (nibble b).isSome) (by decide)
  have values : ∀ b, nibble b = none ∨ nibble b = some (RouteRulePipeline.hexNibble b) :=
    forall_byte (p := fun b => nibble b = none ∨ nibble b = some (RouteRulePipeline.hexNibble b)) (by decide)
  have small : ∀ b, RouteRulePipeline.isCanonicalHex b → RouteRulePipeline.hexNibble b < 16 :=
    forall_byte (p := fun b => RouteRulePipeline.isCanonicalHex b → RouteRulePipeline.hexNibble b < 16)
      (by decide)
  have decoded (byte : UInt8) : (if (byte ≤ 31 || byte == 127 || byte == 0x5c) || isUnreserved byte then false
      else true) = isEscapable byte :=
    forall_byte (p := fun b => (if (b ≤ 31 || b == 127 || b == 0x5c) || isUnreserved b then false else true) =
      isEscapable b) (by decide) byte
  rw [← escape_eq RouteRulePipeline.isCanonicalHex digits values high low]
  unfold RouteRulePipeline.validateEscape
  simp only [decoded]
  cases first : RouteRulePipeline.isCanonicalHex high with
  | false => rfl
  | true =>
    cases second : RouteRulePipeline.isCanonicalHex low with
    | false => rfl
    | true =>
      rw [nibble_sum _ _ ⟨small high first,small low second⟩]
      rfl

theorem bounded_escape : RouteBoundedMatch.canonicalEscapeEnd = isEscape := by
  funext high low
  have decoded (byte : UInt8) : (if byte ≤ 31 || byte == 127 || byte == 0x5c then false
      else if isAsciiAlphanumeric byte || byte == 0x2d || byte == 0x2e || byte == 0x5f || byte == 0x7e then false
      else true) = isEscapable byte :=
    forall_byte (p := fun b => (if b ≤ 31 || b == 127 || b == 0x5c then false
      else if isAsciiAlphanumeric b || b == 0x2d || b == 0x2e || b == 0x5f || b == 0x7e then false
      else true) = isEscapable b) (by decide) byte
  unfold RouteBoundedMatch.canonicalEscapeEnd
  simp only [decoded]
  exact escape_eq RouteBoundedMatch.isHexByte
    (forall_byte (p := fun b => RouteBoundedMatch.isHexByte b = (nibble b).isSome) (by decide))
    (forall_byte (p := fun b => nibble b = none ∨ nibble b = some (RouteBoundedMatch.hex b)) (by decide))
    high low

theorem typed_escape : RouteTypedArithmetic.escapeAllowed = isEscape := by
  funext high low
  have decoded (byte : UInt8) : (if isAsciiAlphanumeric byte ||
      (byte == 0x2d || byte == 0x2e || byte == 0x5f || byte == 0x7e || byte == 0x5c) || byte == 0 ||
      isAsciiControl byte then false else true) = isEscapable byte :=
    forall_byte (p := fun b => (if isAsciiAlphanumeric b ||
      (b == 0x2d || b == 0x2e || b == 0x5f || b == 0x7e || b == 0x5c) || b == 0 ||
      isAsciiControl b then false else true) = isEscapable b) (by decide) byte
  rw [← escape_eq (fun b => isAsciiHexdigit b && !isAsciiLowercase b)
    (forall_byte (p := fun b => (isAsciiHexdigit b && !isAsciiLowercase b) = (nibble b).isSome) (by decide))
    (forall_byte (p := fun b => nibble b = none ∨ nibble b = some (RouteTypedArithmetic.hexValue b))
      (by decide)) high low]
  unfold RouteTypedArithmetic.escapeAllowed
  simp only [decoded]
  cases isAsciiHexdigit high <;> cases isAsciiHexdigit low <;> cases isAsciiLowercase high <;>
    cases isAsciiLowercase low <;> rfl

theorem table_escape : RouteImmutableTable.escapeAllowed = isEscape := by
  funext high low
  have digits : ∀ b, RouteImmutableTable.upperDigit b = nibble b :=
    forall_byte (p := fun b => RouteImmutableTable.upperDigit b = nibble b) (by decide)
  have small : ∀ b, nibble b = none ∨ ∃ value, nibble b = some value ∧ value < 16 := by
    intro b
    cases read : nibble b with
    | none => exact .inl rfl
    | some value =>
      have bound : ∀ v, nibble b = some v → v < 16 := by
        have table := forall_byte (p := fun b => (nibble b).all (· < 16)) (by decide) b
        simpa [Option.all_eq_true] using table
      exact .inr ⟨value,rfl,bound value read⟩
  have decoded (byte : UInt8) : (!(isUnreserved byte || byte == 0x5c || byte ≤ 0x1f || byte == 0x7f)) = isEscapable byte :=
    forall_byte (p := fun b => (!(isUnreserved b || b == 0x5c || b ≤ 0x1f || b == 0x7f)) = isEscapable b)
      (by decide) byte
  unfold RouteImmutableTable.escapeAllowed RouteImmutableTable.decodeUpperHex isEscape
  rw [digits high,digits low]
  rcases small high with absent | ⟨first,upper,firstSmall⟩
  · simp [absent]
  · rcases small low with absent | ⟨second,lower,secondSmall⟩
    · simp [upper,absent]
    · simp only [upper,lower,Option.bind_eq_bind,Option.bind_some]
      rw [nibble_sum first second ⟨firstSmall,secondSmall⟩]
      exact decoded (joinNibbles first second)

theorem direct_plain : RouteDirect.plainByte = isPathByte :=
  funext (forall_byte (p := fun b => RouteDirect.plainByte b = isPathByte b) (by decide))

theorem pipeline_plain : RouteRulePipeline.plainByte = isPathByte :=
  funext (forall_byte (p := fun b => RouteRulePipeline.plainByte b = isPathByte b) (by decide))

theorem bounded_plain : RouteBoundedMatch.plainByte = isPathByte :=
  funext (forall_byte (p := fun b => RouteBoundedMatch.plainByte b = isPathByte b) (by decide))

theorem typed_plain : RouteTypedArithmetic.plainByte = isPathByte :=
  funext (forall_byte (p := fun b => RouteTypedArithmetic.plainByte b = isPathByte b) (by decide))

theorem table_plain : RouteImmutableTable.plainByte = isPathByte :=
  funext (forall_byte (p := fun b => RouteImmutableTable.plainByte b = isPathByte b) (by decide))

theorem dots_behind {value : List UInt8} (rooted : startsWith 0x2f value = true) :
    ((value.drop 1).splitOn 0x2f).any isDots = (value.splitOn 0x2f).any isDots := by
  cases value with
  | nil => cases rooted
  | cons first rest =>
    obtain rfl : first = 0x2f := by simpa [startsWith] using rooted
    rw [List.splitOn_cons_eq_if_modifyHead]
    simp [isDots,ascii]

/-- A prefix as a shape, a scan and its segments, in the order in which each implementation refuses it. -/
theorem prefix_guarded {α : Type} (value : List UInt8) {shape within : Bool} (segments : Bool) (accepted : α)
    (shaped : shape = (startsWith 0x2f value && (value == [0x2f] || !endsWith 0x2f value) && within))
    (cut : startsWith 0x2f value = true → segments = (value.splitOn 0x2f).any isDots) :
    (if !shape then invalidRoute "invalid_path_prefix"
      else if !scanPath isEscape isPathByte value then invalidRoute "invalid_path_prefix"
      else if segments then invalidRoute "invalid_path_prefix"
      else (.ok accepted : Result α)) =
      if isPrefix value && within then .ok accepted else invalidRoute "invalid_path_prefix" := by
  subst shaped
  unfold isPrefix
  cases rooted : startsWith 0x2f value with
  | false => simp
  | true =>
    rw [cut rooted]
    generalize (value == [0x2f] || !endsWith 0x2f value) = ends
    generalize scanPath isEscape isPathByte value = scanned
    generalize (value.splitOn 0x2f).any isDots = dotted
    cases ends <;> cases scanned <;> cases dotted <;> cases within <;> rfl

theorem direct_prefixed (value : List UInt8) :
    RouteDirect.canonicalPrefix value =
      if isPrefix value && value.length ≤ prefixLimit then .ok value else invalidRoute "invalid_path_prefix" := by
  have dots : (fun segment : List UInt8 => segment == ascii "." || segment == ascii "..") = isDots := rfl
  rw [← prefix_guarded value (((value.drop 1).splitOn 0x2f).any isDots) value rfl dots_behind]
  unfold RouteDirect.canonicalPrefix
  rw [direct_escape,direct_plain,dots,show RouteDirect.pathLimit = prefixLimit from rfl,
    show ascii "/" = [0x2f] from rfl,bne]
  generalize (if !scanPath isEscape isPathByte value then invalidRoute "invalid_path_prefix"
    else if ((value.drop 1).splitOn 0x2f).any isDots then invalidRoute "invalid_path_prefix"
    else (.ok value : Result (List UInt8))) = checked
  cases rooted : startsWith 0x2f value with
  | false => simp
  | true =>
    have some : value.isEmpty = false := by
      cases value with
      | nil => cases rooted
      | cons first rest => rfl
    rw [some]
    generalize (value == [0x2f]) = root
    by_cases long : value.length ≤ prefixLimit
    · rw [if_neg (Nat.not_lt.mpr long),decide_eq_true long]
      cases root <;> cases endsWith 0x2f value <;> rfl
    · rw [if_pos (Nat.not_le.mp long),decide_eq_false long]
      simp

theorem pipeline_prefixed (rule : RouteRule) :
    RouteRulePipeline.validateRulePrefix rule =
      if isPrefix rule.pathPrefix && rule.pathPrefix.length ≤ prefixLimit then .ok ()
      else invalidRoute "invalid_path_prefix" := by
  rw [← prefix_guarded rule.pathPrefix (((rule.pathPrefix.drop 1).splitOn 0x2f).any isDots) () rfl dots_behind]
  unfold RouteRulePipeline.validateRulePrefix
  simp only [pipeline_escape,pipeline_plain]
  have shape : ((decide (1 ≤ rule.pathPrefix.length) && decide (rule.pathPrefix.length ≤ RouteRulePipeline.pathLimit)) &&
      rule.pathPrefix.head? == some 0x2f && (rule.pathPrefix == ascii "/" || rule.pathPrefix.getLast? != some 0x2f)) =
      (startsWith 0x2f rule.pathPrefix && (rule.pathPrefix == [0x2f] || !endsWith 0x2f rule.pathPrefix) &&
        decide (rule.pathPrefix.length ≤ prefixLimit)) := by
    cases rule.pathPrefix with
    | nil => rfl
    | cons first rest =>
      simp only [List.length_cons,Nat.le_add_left,decide_true,Bool.true_and]
      rw [Bool.and_assoc]
      exact Bool.and_comm _ _
  rw [shape]
  rfl

theorem bounded_prefixed (value : List UInt8) :
    RouteBoundedMatch.pathPrefix value =
      if isPrefix value && value.length ≤ prefixLimit then .ok value else invalidRoute "invalid_path_prefix" := by
  have shape : RouteBoundedMatch.prefixShape value =
      if startsWith 0x2f value && (value == [0x2f] || !endsWith 0x2f value) && value.length ≤ prefixLimit then .ok ()
      else invalidRoute "invalid_path_prefix" := by
    unfold RouteBoundedMatch.prefixShape
    cases value with
    | nil => rfl
    | cons first rest =>
      have rooted : startsWith 0x2f (first :: rest) = (first == 0x2f) := rfl
      have root : (first :: rest == [0x2f]) = (first == 0x2f && rest.isEmpty) := by
        cases rest <;> simp
      have ends : endsWith 0x2f (first :: rest) = ((rest.isEmpty && first == 0x2f) || endsWith 0x2f rest) := by
        cases rest <;> simp [endsWith]
      rw [rooted,root,ends,show RouteBoundedMatch.maxPrefixBytes = prefixLimit from rfl]
      dsimp only
      by_cases long : (first :: rest).length ≤ prefixLimit
      · rw [decide_eq_true long,decide_eq_false (Nat.not_lt.mpr long)]
        cases first == 0x2f <;> cases rest.isEmpty <;> cases endsWith 0x2f rest <;> rfl
      · rw [decide_eq_false long,decide_eq_true (Nat.not_le.mp long)]
        cases first == 0x2f <;> cases rest.isEmpty <;> cases endsWith 0x2f rest <;> rfl
  rw [← prefix_guarded value (((value.drop 1).splitOn 0x2f).any isDots) value rfl dots_behind]
  unfold RouteBoundedMatch.pathPrefix
  rw [shape,bounded_escape,bounded_plain]
  cases startsWith 0x2f value && (value == [0x2f] || !endsWith 0x2f value) && decide (value.length ≤ prefixLimit) <;> rfl

theorem typed_prefixed (value : List UInt8) :
    RouteTypedArithmetic.canonicalPrefix value =
      if isPrefix value then .ok value else invalidRoute "invalid_path_prefix" := by
  have guarded := prefix_guarded value ((value.splitOn 0x2f).any isDots) value (Bool.and_true _).symm fun _ => rfl
  rw [Bool.and_true] at guarded
  rw [← guarded]
  unfold RouteTypedArithmetic.canonicalPrefix
  rw [typed_escape,typed_plain]
  cases value with
  | nil => rfl
  | cons first rest =>
    obtain ⟨last,ends⟩ : ∃ last, (first :: rest).getLast? = some last := ⟨_,List.getLast?_eq_some_getLast (by simp)⟩
    have shape : (if first == 0x2f then last != 0x2f || (first :: rest).length == 1 else false) =
        (startsWith 0x2f (first :: rest) && (first :: rest == [0x2f] || !endsWith 0x2f (first :: rest))) := by
      have last' : endsWith 0x2f (first :: rest) = (last == 0x2f) := by rw [endsWith,ends]; rfl
      rw [last']
      cases rooted : first == 0x2f with
      | false => simp [startsWith,rooted]
      | true =>
        have root : (first :: rest == [0x2f]) = ((first :: rest).length == 1) := by
          cases rest <;> simp_all
        rw [root,if_pos rfl,bne,Bool.or_comm]
        simp [startsWith,rooted]
    simp only [List.head?_cons,ends,shape]
    rfl

theorem table_prefixed (value : List UInt8) : RouteImmutableTable.canonicalPrefix value = isPrefix value := by
  unfold RouteImmutableTable.canonicalPrefix isPrefix
  rw [table_escape,table_plain]
  have dots : (fun segment : List UInt8 => segment == ascii "." || segment == ascii "..") = isDots := rfl
  rw [dots]
  cases value with
  | nil => rfl
  | cons first rest =>
    cases rooted : startsWith 0x2f (first :: rest) with
    | false => simp
    | true =>
      obtain rfl : first = 0x2f := by simpa [startsWith] using rooted
      have root : ((0x2f : UInt8) :: rest == [0x2f]) = !decide (((0x2f : UInt8) :: rest).length > 1) := by
        cases rest <;> simp
      rw [root]
      generalize decide (((0x2f : UInt8) :: rest).length > 1) = longer
      cases longer <;> cases endsWith 0x2f ((0x2f : UInt8) :: rest) <;>
        cases scanPath isEscape isPathByte ((0x2f : UInt8) :: rest) <;> simp

theorem bounded_upstream (name : List UInt8) :
    RouteBoundedMatch.parseUpstream name = if isUpstream name then .ok name else invalidRoute "invalid_upstream" := by
  have bytes : (name.forM fun byte : UInt8 =>
      if (0x41 ≤ byte && byte ≤ 0x5a) || (0x61 ≤ byte && byte ≤ 0x7a) || (0x30 ≤ byte && byte ≤ 0x39) ||
        byte == 0x5f || byte == 0x2e || byte == 0x2d then .ok ()
      else invalidRoute "invalid_upstream") =
      if name.all (fun byte => isAsciiAlphanumeric byte || byte == 0x5f || byte == 0x2e || byte == 0x2d) then .ok ()
      else invalidRoute "invalid_upstream" := by
    apply forM_guard
    intro byte
    have table := forall_byte (p := fun b => ((0x41 ≤ b && b ≤ 0x5a) || (0x61 ≤ b && b ≤ 0x7a) ||
      (0x30 ≤ b && b ≤ 0x39) || b == 0x5f || b == 0x2e || b == 0x2d) =
      (isAsciiAlphanumeric b || b == 0x5f || b == 0x2e || b == 0x2d)) (by decide) byte
    rw [table]
  unfold RouteBoundedMatch.parseUpstream isUpstream
  rw [bytes,show RouteBoundedMatch.maxUpstreamBytes = 64 from rfl]
  generalize (decide (1 ≤ name.length) && decide (name.length ≤ 64)) = sized
  generalize (name.all fun byte => isAsciiAlphanumeric byte || byte == 0x5f || byte == 0x2e || byte == 0x2d) = plain
  cases sized <;> cases plain <;> rfl

theorem checks_row {η β : Type} (bounded : Bool) (rule : RouteRule) {host : Result η} {name : η}
    {pathPrefix upstream : Result (List UInt8)}
    (hosted : host = if isHost rule.host then .ok name else invalidRoute "invalid_host")
    (prefixed : pathPrefix =
      if isPrefix rule.pathPrefix && (!bounded || rule.pathPrefix.length ≤ prefixLimit) then .ok rule.pathPrefix
      else invalidRoute "invalid_path_prefix")
    (served : upstream = if isUpstream rule.upstream then .ok rule.upstream else invalidRoute "invalid_upstream")
    (next : η → List UInt8 → List UInt8 → Result β) :
    (host >>= fun h => pathPrefix >>= fun p => upstream >>= fun u => next h p u) =
      afterChecks bounded rule (next name rule.pathPrefix rule.upstream) := by
  rw [hosted,prefixed,served]
  unfold afterChecks ruleFault
  generalize (isPrefix rule.pathPrefix && (!bounded || decide (rule.pathPrefix.length ≤ prefixLimit))) = valid
  cases isHost rule.host <;> cases valid <;> cases isUpstream rule.upstream <;> rfl

theorem direct_rule (rule : RouteRule) :
    RouteDirect.validRule rule =
      afterChecks true rule (.ok ⟨rule.host,rule.pathPrefix,rule.upstream,rule.declarationOrder⟩) :=
  checks_row true rule (direct_host rule.host) (direct_prefixed rule.pathPrefix) rfl
    fun host pathPrefix upstream => .ok (RouteDirect.ValidRule.mk host pathPrefix upstream rule.declarationOrder)

theorem pipeline_rule (rule : RouteRule) :
    RouteRulePipeline.checkRule rule =
      afterChecks true rule (.ok ⟨rule.host,rule.pathPrefix,rule.upstream,rule.declarationOrder⟩) := by
  have upstream : RouteRulePipeline.validateRuleUpstream rule =
      if isUpstream rule.upstream then .ok () else invalidRoute "invalid_upstream" := rfl
  have row : RouteRulePipeline.checkRule rule = (RouteRulePipeline.validateRuleHost rule >>= fun _ =>
      RouteRulePipeline.validateRulePrefix rule >>= fun _ => RouteRulePipeline.validateRuleUpstream rule >>= fun _ =>
        .ok ⟨rule.host,rule.pathPrefix,rule.upstream,rule.declarationOrder⟩) := by
    change ((RouteRulePipeline.validateRuleHost rule >>= fun _ => RouteRulePipeline.validateRulePrefix rule >>= fun _ =>
      RouteRulePipeline.validateRuleUpstream rule >>= fun _ => pure ()) >>= fun _ => .ok _) = _
    simp only [bind_assoc,pure_result,bind_ok]
  rw [row,pipeline_host,pipeline_prefixed,upstream]
  unfold afterChecks ruleFault
  simp only [Bool.not_true,Bool.false_or]
  generalize (isPrefix rule.pathPrefix && decide (rule.pathPrefix.length ≤ prefixLimit)) = valid
  cases isHost rule.host <;> cases valid <;> cases isUpstream rule.upstream <;> rfl

theorem table_requirements (rule : RouteRule) :
    (RouteImmutableTable.ruleRequirements.find? fun requirement => !requirement.accepts rule).map (·.reason) =
      ruleFault false rule := by
  have upstream : RouteImmutableTable.canonicalUpstream rule.upstream = isUpstream rule.upstream := rfl
  unfold ruleFault
  simp only [RouteImmutableTable.ruleRequirements,List.find?_cons,table_host,table_prefixed,upstream,Bool.not_false,
    Bool.true_or,Bool.and_true]
  cases isHost rule.host <;> cases isPrefix rule.pathPrefix <;> cases isUpstream rule.upstream <;> rfl

theorem direct_covers (value path : List UInt8) : RouteDirect.prefixMatches value path = covers value path := by
  unfold RouteDirect.prefixMatches covers
  rw [show ascii "/" = [0x2f] from rfl]
  cases value == [0x2f] with
  | true => rfl
  | false =>
    rcases stripPrefix value path with _ | _ | ⟨next,rest⟩
    · rfl
    · rfl
    · simp [startsWith]

theorem typed_covers (value path : List UInt8) : RouteTypedArithmetic.prefixMatches value path = covers value path := by
  unfold RouteTypedArithmetic.prefixMatches covers
  rw [show ascii "/" = [0x2f] from rfl]
  cases value == [0x2f] with
  | true => rfl
  | false => cases stripPrefix value path <;> rfl

theorem bounded_covers (value path : List UInt8) : RouteBoundedMatch.prefixMatches value path = covers value path := by
  unfold RouteBoundedMatch.prefixMatches covers
  rw [show ascii "/" = [0x2f] from rfl]
  cases value == [0x2f] with
  | true => rfl
  | false =>
    by_cases leads : value <+: path
    · obtain ⟨rest,rfl⟩ := leads
      have strip : stripPrefix value (value ++ rest) = some rest := by simp [stripPrefix]
      rw [strip]
      cases rest <;> simp [startsWith]
    · have strip : stripPrefix value path = none := by
        simp only [stripPrefix,List.isPrefixOf_iff_prefix,leads,if_false]
      have differ : (path.take value.length == value) = false := by
        rw [beq_eq_false_iff_ne]
        intro same
        exact leads (List.prefix_iff_eq_take.mpr same.symm)
      rw [strip,differ]
      simp

end Polyguard.Route
