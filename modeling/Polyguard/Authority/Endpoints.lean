import Polyguard.RequestTarget.Authorities
import Polyguard.Authority.Implementations

/-! What a host or a target names: a canonical host and an explicit port.
The five parsers read the same endpoint, the host in lowercase at once or at the
end, and report every other text by the one error they have. -/
namespace Polyguard.AuthorityAgreement
open Ascii Slices Decimal Address TargetBytes RequestTarget

/-- The endpoint that a text names. -/
def endpoint (text : List UInt8) : Result Authority :=
  (readAuthority false text).elim invalidAuthority fun read => .ok ⟨read.1,read.2.map digitsValue⟩

def portValue (text : List UInt8) : Result Nat := if validPort text then .ok (digitsValue text) else invalidAuthority

theorem foldl_pushDigit_ge (digits : List UInt8) (value : Nat) : value ≤ digits.foldl Decimal.pushDigit value := by
  induction digits generalizing value with
  | nil => exact Nat.le_refl _
  | cons digit digits ih =>
    have step : value ≤ Decimal.pushDigit value digit := by unfold Decimal.pushDigit; omega
    exact Nat.le_trans step (ih _)

theorem pushChecked_eq (value : Nat) (digit : UInt8) :
    pushChecked value digit = if Decimal.pushDigit value digit ≤ u32Max then some (Decimal.pushDigit value digit) else none := by
  unfold pushChecked Decimal.pushDigit
  rw [Nat.mul_comm value 10]
  by_cases fits : 10 * value + (digit - 0x30).toNat ≤ u32Max
  · have small : 10 * value ≤ u32Max := by omega
    simp [fits,small]
  · simp [fits]

theorem pushChecked_fold (digits : List UInt8) {value : Nat} (small : value ≤ u32Max) :
    digits.foldlM pushChecked value =
      if digits.foldl Decimal.pushDigit value ≤ u32Max then some (digits.foldl Decimal.pushDigit value) else none := by
  induction digits generalizing value with
  | nil => simp [small]
  | cons digit digits ih =>
    rw [List.foldlM_cons,List.foldl_cons,pushChecked_eq]
    by_cases fits : Decimal.pushDigit value digit ≤ u32Max
    · simp only [fits,if_true]
      exact ih fits
    · have beyond : ¬ digits.foldl Decimal.pushDigit (Decimal.pushDigit value digit) ≤ u32Max := by
        have grows := foldl_pushDigit_ge digits (Decimal.pushDigit value digit)
        omega
      simp [fits,beyond]

theorem checked_digits (digits : List UInt8) :
    digits.foldlM pushChecked 0 = if digitsValue digits ≤ u32Max then some (digitsValue digits) else none :=
  pushChecked_fold digits (by decide)

theorem beyond_u16 {value : Nat} (beyond : ¬ value ≤ u32Max) : ¬ value ≤ u16Max := by
  simp only [u16Max,u32Max] at beyond ⊢
  omega

theorem composable_port (text : List UInt8) : AuthorityComposableComponents.parsePort text = portValue text := by
  unfold AuthorityComposableComponents.parsePort portValue
  obtain ⟨guard,refused⟩ | ⟨guard,-,-,valid⟩ := digits_cases text
  · rw [guard,refused]
    rfl
  · rw [guard,valid,checked_digits]
    by_cases fits : digitsValue text ≤ u32Max
    · rw [if_pos fits]
      rfl
    · rw [if_neg fits]
      simp [beyond_u16 fits]

theorem phases_port (text : List UInt8) : AuthorityPhases.parsePort text = portValue text := by
  unfold AuthorityPhases.parsePort portValue
  obtain ⟨guard,refused⟩ | ⟨guard,some,digits,valid⟩ := digits_cases text
  · rw [guard,refused]
    rfl
  · rw [guard,valid,parseUnsigned_digits some digits]
    by_cases fits : digitsValue text ≤ u16Max
    · simp [fits]
    · simp [fits]

theorem foldDigit_fold (digits : List UInt8) (value : Nat) :
    digits.foldlM AuthorityEndpointAlgebra.foldDigit value =
      if digits.all isAsciiDigit then digits.foldlM pushChecked value else none := by
  induction digits generalizing value with
  | nil => rfl
  | cons digit digits ih =>
    rw [List.foldlM_cons,List.foldlM_cons,List.all_cons,AuthorityEndpointAlgebra.foldDigit]
    cases isAsciiDigit digit with
    | false => rfl
    | true =>
      simp only [Bool.not_true,Bool.false_eq_true,if_false,Bool.true_and]
      cases pushChecked value digit with
      | none => cases digits.all isAsciiDigit <;> rfl
      | some value => exact ih value

theorem algebra_port (text : List UInt8) : AuthorityEndpointAlgebra.parsePort text = portValue text := by
  unfold AuthorityEndpointAlgebra.parsePort portValue
  rw [foldDigit_fold]
  obtain ⟨guard,refused⟩ | ⟨guard,some,digits,valid⟩ := digits_cases text
  · rw [refused]
    cases all : text.all isAsciiDigit with
    | false => rfl
    | true =>
      have empty : text = [] := by simpa [all] using guard
      subst empty
      rfl
  · have all : text.all isAsciiDigit = true := List.all_eq_true.mpr digits
    rw [all,valid,if_pos rfl,checked_digits]
    by_cases fits : digitsValue text ≤ u32Max
    · have full : text.isEmpty = false := by simpa using some
      rw [if_pos fits]
      simp only [full,Bool.not_false,Bool.and_true]
      rfl
    · rw [if_neg fits]
      simp [beyond_u16 fits]

theorem portFrom_eq (digits : List UInt8) {value : Nat} (small : value ≤ u16Max) :
    portFrom value digits =
      if digits.all isAsciiDigit && digits.foldl Decimal.pushDigit value ≤ u16Max then .ok (digits.foldl Decimal.pushDigit value)
      else invalidAuthority := by
  induction digits generalizing value with
  | nil => simp [portFrom,small]
  | cons digit digits ih =>
    unfold portFrom
    rw [List.all_cons,List.foldl_cons,pushChecked_eq]
    cases isAsciiDigit digit with
    | false => rfl
    | true =>
      simp only [Bool.not_true,Bool.false_eq_true,if_false,Bool.true_and]
      have grows := foldl_pushDigit_ge digits (Decimal.pushDigit value digit)
      by_cases fits : Decimal.pushDigit value digit ≤ u16Max
      · have wide : Decimal.pushDigit value digit ≤ u32Max := by
          simp only [u16Max,u32Max] at fits ⊢
          omega
        simp only [wide,if_true,Nat.not_lt.mpr fits,if_false]
        exact ih fits
      · have beyond : ¬ digits.foldl Decimal.pushDigit (Decimal.pushDigit value digit) ≤ u16Max := by omega
        by_cases wide : Decimal.pushDigit value digit ≤ u32Max
        · simp [wide,Nat.lt_of_not_le fits,beyond]
        · simp [wide,beyond]

theorem bounded_port (text : List UInt8) : boundedPort text = portValue text := by
  unfold boundedPort portValue validPort
  rw [portFrom_eq text (by decide)]
  change _ = if !text.isEmpty && text.all isAsciiDigit &&
    (1 ≤ text.foldl Decimal.pushDigit 0 && text.foldl Decimal.pushDigit 0 ≤ u16Max) then Except.ok (text.foldl Decimal.pushDigit 0) else _
  cases text.isEmpty with
  | true => rfl
  | false =>
    cases text.all isAsciiDigit with
    | false => rfl
    | true =>
      by_cases fits : text.foldl Decimal.pushDigit 0 ≤ u16Max
      · by_cases zero : text.foldl Decimal.pushDigit 0 = 0
        · simp [zero]
        · simp [fits,zero,Nat.one_le_iff_ne_zero]
      · simp [fits]

/-- The port behind the closing bracket. -/
def suffixValue (suffix : List UInt8) : Result (Option Nat) :=
  if suffix.isEmpty then .ok none
  else if startsWith 0x3a suffix then (portValue (suffix.drop 1)).map some
  else invalidAuthority

theorem suffix_next {α : Type} (suffix : List UInt8) (next : Option Nat → Result α) :
    (if suffix.isEmpty then (.ok none : Result (Option Nat)) >>= next
      else if startsWith 0x3a suffix then (portValue (suffix.drop 1)).map some >>= next
      else invalidAuthority >>= next) = suffixValue suffix >>= next := by
  unfold suffixValue
  cases suffix.isEmpty with
  | true => rfl
  | false => cases startsWith 0x3a suffix <;> rfl

/-- The canonical name of a host that is no address. -/
def named (host : List UInt8) : Result (List UInt8) := (namedHost host).elim invalidAuthority .ok

theorem read_port (host port : List UInt8) :
    ((some (host,some port)).filter fun read => portAllowed false read.2).elim invalidAuthority
        (fun read => .ok ⟨read.1,read.2.map digitsValue⟩) =
      (portValue port).map fun port => (⟨host,some port⟩ : Authority) := by
  rw [Option.filter_some,portValue]
  by_cases valid : validPort port = true
  · rw [if_pos (show portAllowed false (some port) = true from valid),if_pos valid]
    rfl
  · rw [if_neg (show ¬ portAllowed false (some port) = true from valid),if_neg valid]
    rfl

theorem endpoint_open {inner : List UInt8} (absent : (0x5d : UInt8) ∉ inner) :
    endpoint (0x5b :: inner) = invalidAuthority := by
  rw [endpoint,readAuthority,readHost_open absent]
  rfl

theorem endpoint_closed {address : List UInt8} (absent : (0x5d : UInt8) ∉ address) (suffix : List UInt8) :
    endpoint (0x5b :: (address ++ 0x5d :: suffix)) =
      if !isIpv6 address then invalidAuthority
      else (suffixValue suffix).map fun port => ⟨0x5b :: (address.map toAsciiLowercase ++ [0x5d]),port⟩ := by
  rw [endpoint,readAuthority,readHost_closed absent]
  cases isIpv6 address with
  | false => rfl
  | true =>
    unfold suffixPort suffixValue portValue
    cases suffix.isEmpty with
    | true => rfl
    | false =>
      cases startsWith 0x3a suffix with
      | false => rfl
      | true =>
        refine (read_port _ (suffix.drop 1)).trans ?_
        unfold portValue
        cases validPort (suffix.drop 1) <;> rfl

theorem endpoint_plain {text : List UInt8} (name : startsWith 0x5b text = false) (absent : (0x3a : UInt8) ∉ text) :
    endpoint text = (named text).map fun host => ⟨host,none⟩ := by
  rw [endpoint,readAuthority,readHost_plain name absent,named]
  cases namedHost text <;> rfl

theorem endpoint_port {host port : List UInt8} (name : startsWith 0x5b (host ++ 0x3a :: port) = false)
    (inHost : (0x3a : UInt8) ∉ host) (inPort : (0x3a : UInt8) ∉ port) :
    endpoint (host ++ 0x3a :: port) =
      named host >>= fun host => (portValue port).map fun port => ⟨host,some port⟩ := by
  rw [endpoint,readAuthority,readHost_port name inHost inPort,named]
  cases namedHost host with
  | none => rfl
  | some name => exact read_port name port

theorem endpoint_colons {host middle port : List UInt8}
    (name : startsWith 0x5b (host ++ 0x3a :: (middle ++ 0x3a :: port)) = false) (inPort : (0x3a : UInt8) ∉ port) :
    endpoint (host ++ 0x3a :: (middle ++ 0x3a :: port)) = invalidAuthority := by
  rw [endpoint,readAuthority,readHost_colons name inPort]
  rfl

theorem refusesLabel_eq (label : List UInt8) : refusesLabel label = !validDnsLabel label := by
  unfold refusesLabel validDnsLabel startsWith endsWith isLabelByte
  simp only [Bool.not_and,Bool.not_not,← decide_not,Nat.not_le]

theorem refusesDnsLabel_eq (label : List UInt8) :
    AuthoritySegmentPipeline.refusesDnsLabel label = !validDnsLabel label := by
  unfold AuthoritySegmentPipeline.refusesDnsLabel validDnsLabel startsWith endsWith isLabelByte
  rcases label with _ | ⟨first,rest⟩
  · rfl
  · obtain ⟨last,ends⟩ : ∃ last, (first :: rest).getLast? = some last := ⟨_,List.getLast?_eq_some_getLast (by simp)⟩
    rw [ends]
    simp only [List.head?_cons,Option.any_some,List.isEmpty_cons,Bool.not_false,Bool.true_and,Bool.not_and,Bool.not_not,
      Option.some_beq_some,bne,← decide_not,Nat.not_le,Bool.or_assoc]

theorem refused_labels (name : List UInt8) :
    (name.splitOn 0x2e).any refusesLabel = !(name.splitOn 0x2e).all validDnsLabel ∧
      (name.splitOn 0x2e).any AuthoritySegmentPipeline.refusesDnsLabel = !(name.splitOn 0x2e).all validDnsLabel := by
  rw [List.not_all_eq_any_not,funext refusesLabel_eq,funext refusesDnsLabel_eq]
  exact ⟨rfl,rfl⟩

theorem named_cases (host : List UInt8) :
    (((((stripSuffix 0x2e host).getD host).isEmpty || decide (((stripSuffix 0x2e host).getD host).length > 253)) = true ∨
        (((stripSuffix 0x2e host).getD host).splitOn 0x2e).all validDnsLabel = false) ∧ named host = invalidAuthority) ∨
    (((stripSuffix 0x2e host).getD host).isEmpty || decide (((stripSuffix 0x2e host).getD host).length > 253)) = false ∧
      (((stripSuffix 0x2e host).getD host).splitOn 0x2e).all validDnsLabel = true ∧
      named host = .ok (((stripSuffix 0x2e host).getD host).map toAsciiLowercase) := by
  unfold named namedHost
  dsimp only
  generalize (stripSuffix 0x2e host).getD host = name
  cases guard : name.isEmpty || decide (name.length > 253) with
  | true => exact .inl ⟨.inl rfl,by simp⟩
  | false =>
    cases labels : (name.splitOn 0x2e).all validDnsLabel with
    | false => exact .inl ⟨.inr rfl,by simp⟩
    | true => exact .inr ⟨rfl,rfl,by simp⟩

theorem guarded_endpoint {text : List UInt8} (refuses : UInt8 → Bool) {parsed : Result Authority}
    (passes : ∀ b, isAuthorityByte b → refuses b = false)
    (same : text ≠ [] → text.all isAscii → text.any refuses = false → parsed = endpoint text) :
    (if text.isEmpty || !text.all isAscii || text.any refuses then invalidAuthority else parsed) = endpoint text := by
  split
  · rename_i refused
    unfold endpoint
    cases accepted : readAuthority false text with
    | none => rfl
    | some read =>
      have inside := readAuthority_inside accepted
      have small : text.all isAscii = true := by
        rw [List.all_eq_true]
        intro b member
        exact forall_byte (p := fun c => isAuthorityByte c → isAscii c) (by decide) b (inside b member)
      have clean : text.any refuses = false := by
        rw [List.any_eq_false]
        intro b member
        rw [passes b (inside b member)]
        decide
      have full : text.isEmpty = false := by
        cases text with
        | nil => cases accepted
        | cons first rest => rfl
      simp [small,clean,full] at refused
  · rename_i clean
    simp only [Bool.or_eq_true,Bool.not_eq_true',not_or,Bool.not_eq_true,Bool.not_eq_false] at clean
    exact same (List.isEmpty_eq_false_iff.mp clean.1.1) clean.1.2 clean.2

theorem composable_dns (host : List UInt8) : AuthorityComposableComponents.canonicalDns host = named host := by
  unfold AuthorityComposableComponents.canonicalDns
  dsimp only
  rw [(refused_labels _).1]
  rcases named_cases host with ⟨long | labels,refused⟩ | ⟨short,labels,accepted⟩
  · rw [if_pos long,refused]
  · rw [labels,refused]
    split <;> rfl
  · rw [short,labels,accepted]
    rfl

theorem phases_dns {α : Type} (host : List UInt8) (next : List UInt8 → Result α) :
    (AuthorityPhases.validateDns ((stripSuffix 0x2e host).getD host) >>= fun _ =>
        next (((stripSuffix 0x2e host).getD host).map toAsciiLowercase)) = named host >>= next := by
  unfold AuthorityPhases.validateDns
  rw [(refused_labels _).1]
  rcases named_cases host with ⟨long | labels,refused⟩ | ⟨short,labels,accepted⟩
  · rw [if_pos long,refused]
    rfl
  · rw [labels,refused]
    split <;> rfl
  · rw [short,labels,accepted]
    rfl

theorem count_absent {text : List UInt8} (absent : (0x3a : UInt8) ∉ text) : text.count 0x3a = 0 :=
  List.count_eq_zero.mpr absent

theorem count_one {host port : List UInt8} (inHost : (0x3a : UInt8) ∉ host) (inPort : (0x3a : UInt8) ∉ port) :
    (host ++ 0x3a :: port).count 0x3a = 1 := by
  rw [List.count_append,List.count_cons_self,count_absent inHost,count_absent inPort]

theorem count_more (host middle port : List UInt8) :
    ∃ n, (host ++ 0x3a :: (middle ++ 0x3a :: port)).count 0x3a = n + 2 := by
  refine ⟨host.count 0x3a + middle.count 0x3a + port.count 0x3a,?_⟩
  rw [List.count_append,List.count_cons_self,List.count_append,List.count_cons_self]
  omega

theorem startsWith_bracket (rest : List UInt8) : startsWith 0x5b (0x5b :: rest) = true := by
  simp [startsWith]

theorem position_bracket {address : List UInt8} (absent : (0x5d : UInt8) ∉ address) (suffix : List UInt8) :
    position (· == 0x5d) (address ++ 0x5d :: suffix) = some address.length :=
  position_append suffix (miss_of_absent absent) rfl

theorem position_whole {address : List UInt8} (absent : (0x5d : UInt8) ∉ address) (suffix : List UInt8) :
    position (· == 0x5d) (0x5b :: (address ++ 0x5d :: suffix)) = some (address.length + 1) := by
  have inner : (0x5d : UInt8) ∉ 0x5b :: address := by simpa using absent
  exact position_bracket inner suffix

theorem position_open {inner : List UInt8} (absent : (0x5d : UInt8) ∉ inner) :
    position (· == 0x5d) inner = none := position_none (miss_of_absent absent)

theorem composable_bracket {address : List UInt8} (absent : (0x5d : UInt8) ∉ address) (suffix : List UInt8) :
    AuthorityComposableComponents.separateHostAndPort (0x5b :: (address ++ 0x5d :: suffix)) =
      if suffix.isEmpty then .ok (.ipv6 address,none)
      else if startsWith 0x3a suffix && !(suffix.drop 1).isEmpty then .ok (.ipv6 address,some (suffix.drop 1))
      else invalidAuthority := by
  unfold AuthorityComposableComponents.separateHostAndPort
  simp only [startsWith_bracket,if_true,List.drop_one,List.tail_cons,position_bracket absent,List.take_left,drop_hit]

theorem composable_ipv6 (address : List UInt8) :
    AuthorityComposableComponents.canonicalIpv6 address =
      if !isIpv6 address then invalidAuthority else .ok (0x5b :: (address.map toAsciiLowercase ++ [0x5d])) := by
  unfold AuthorityComposableComponents.canonicalIpv6
  cases literal : isIpv6 address with
  | false => simp
  | true =>
    have full : address.isEmpty = false := by
      cases address with
      | nil => rw [isIpv6_nil] at literal; cases literal
      | cons first rest => rfl
    have zoneless : (0x25 : UInt8) ∉ address := by
      intro member
      exact absurd (isIpv6_bytes literal 0x25 member) (by decide)
    simp [full,zoneless]

theorem composable_endpoint (text : List UInt8) : AuthorityComposableComponents.parseAuthority text = endpoint text := by
  unfold AuthorityComposableComponents.parseAuthority
  have guard (parsed : Result Authority) (same : parsed = endpoint text) :
      (if text.isEmpty || !text.all isAscii then invalidAuthority else parsed) = endpoint text := by
    have guarded := guarded_endpoint (fun _ => false) (fun _ _ => rfl) fun _ _ _ => same
    rwa [show text.any (fun _ => false) = false by simp,Bool.or_false] at guarded
  apply guard
  rcases host_cases text with ⟨inner,rfl,absent⟩ | ⟨address,suffix,rfl,absent⟩ | ⟨name,absent⟩ |
    ⟨host,port,name,rfl,inHost,inPort⟩ | ⟨host,middle,port,name,rfl,inHost,inPort⟩
  · rw [endpoint_open absent]
    unfold AuthorityComposableComponents.separateHostAndPort
    simp only [startsWith_bracket,if_true,List.drop_one,List.tail_cons,position_open absent]
    rfl
  · rw [endpoint_closed absent,composable_bracket absent]
    unfold suffixValue
    cases suffix.isEmpty with
    | true =>
      simp only [if_true,bind_ok,composable_ipv6,Option.map_none,transpose]
      cases isIpv6 address <;> rfl
    | false =>
      cases startsWith 0x3a suffix with
      | false =>
        simp only [Bool.false_eq_true,if_false,Bool.false_and]
        cases isIpv6 address <;> rfl
      | true =>
        cases empty : (suffix.drop 1).isEmpty with
        | true =>
          have refused : portValue (suffix.drop 1) = invalidAuthority := by
            rw [List.isEmpty_iff.mp empty]
            rfl
          simp only [Bool.false_eq_true,if_false,Bool.not_true,Bool.and_false,if_true,refused]
          cases isIpv6 address <;> rfl
        | false =>
          simp only [Bool.false_eq_true,if_false,Bool.not_false,Bool.and_true,if_true,bind_ok,composable_ipv6,
            Option.map_some,composable_port]
          cases isIpv6 address with
          | false => rfl
          | true => cases portValue (suffix.drop 1) <;> rfl
  · rw [endpoint_plain name absent]
    unfold AuthorityComposableComponents.separateHostAndPort
    simp only [name,Bool.false_eq_true,if_false,count_absent absent,bind_ok,composable_dns,Option.map_none,transpose]
    cases named text <;> rfl
  · rw [endpoint_port name inHost inPort]
    unfold AuthorityComposableComponents.separateHostAndPort
    simp only [name,Bool.false_eq_true,if_false,count_one inHost inPort,splitOnce_first inHost]
    cases emptyHost : host.isEmpty with
    | true =>
      have refused : named host = invalidAuthority := by
        rw [List.isEmpty_iff.mp emptyHost]
        rfl
      rw [refused]
      rfl
    | false =>
      cases emptyPort : port.isEmpty with
      | true =>
        have refused : portValue port = invalidAuthority := by
          rw [List.isEmpty_iff.mp emptyPort]
          rfl
        rw [refused,named]
        cases namedHost host <;> rfl
      | false =>
        simp only [Bool.or_false,Bool.false_eq_true,if_false,bind_ok,composable_dns,Option.map_some,composable_port]
        cases named host with
        | error error => rfl
        | ok canonical => cases portValue port <;> rfl
  · obtain ⟨n,more⟩ := count_more host middle port
    rw [endpoint_colons name inPort]
    unfold AuthorityComposableComponents.separateHostAndPort
    simp only [name,Bool.false_eq_true,if_false,more]
    rfl

theorem slice_bracket (address suffix : List UInt8) :
    slice (0x5b :: (address ++ 0x5d :: suffix)) 1 (address.length + 1) = address := by
  have cut := slice_append [0x5b] address (0x5d :: suffix)
  simpa [Nat.add_comm] using cut

theorem take_bracket (address suffix : List UInt8) :
    (0x5b :: (address ++ 0x5d :: suffix)).take (address.length + 1 + 1) = 0x5b :: (address ++ [0x5d]) := by
  rw [List.take_succ_cons,List.take_append,List.take_of_length_le (by omega)]
  simp

theorem drop_bracket (address suffix : List UInt8) :
    (0x5b :: (address ++ 0x5d :: suffix)).drop (address.length + 1 + 1) = suffix := by
  rw [List.drop_succ_cons,drop_hit]

theorem full_address (address : List UInt8) : (address.isEmpty || !isIpv6 address) = !isIpv6 address := by
  cases address with
  | nil => rfl
  | cons first rest => rfl

theorem endpoint_port_first {host port : List UInt8} (name : startsWith 0x5b (host ++ 0x3a :: port) = false)
    (inHost : (0x3a : UInt8) ∉ host) (inPort : (0x3a : UInt8) ∉ port) :
    endpoint (host ++ 0x3a :: port) = portValue port >>= fun port => (named host).map fun host => ⟨host,some port⟩ := by
  rw [endpoint_port name inHost inPort,portValue,named]
  cases validPort port <;> cases namedHost host <;> rfl

/-- The bytes that two implementations refuse before they look for brackets. -/
def forbidden (byte : UInt8) : Bool :=
  (isAsciiWhitespace byte || isAsciiControl byte) ||
    (byte == 0x2c || byte == 0x40 || byte == 0x2f || byte == 0x3f || byte == 0x23 || byte == 0x25)

theorem forbidden_passes (byte : UInt8) (inside : isAuthorityByte byte) : forbidden byte = false := by
  revert inside
  exact forall_byte (p := fun b => isAuthorityByte b → forbidden b = false) (by decide) byte

theorem alphabet_passes (byte : UInt8) (inside : isAuthorityByte byte) : outsideAlphabet byte = false := by
  revert inside
  exact forall_byte (p := fun b => isAuthorityByte b → outsideAlphabet b = false) (by decide) byte

theorem any_or_any (p q : UInt8 → Bool) (text : List UInt8) :
    (text.any p || text.any q) = text.any fun byte => p byte || q byte := by
  induction text with
  | nil => rfl
  | cons byte text ih =>
    simp only [List.any_cons,← ih]
    cases p byte <;> cases q byte <;> simp

theorem phases_endpoint (text : List UInt8) : AuthorityPhases.parseAuthority text = endpoint text := by
  unfold AuthorityPhases.parseAuthority
  rw [Bool.or_assoc,any_or_any]
  refine guarded_endpoint forbidden forbidden_passes fun _ _ _ => ?_
  rcases host_cases text with ⟨inner,rfl,absent⟩ | ⟨address,suffix,rfl,absent⟩ | ⟨name,absent⟩ |
    ⟨host,port,name,rfl,inHost,inPort⟩ | ⟨host,middle,port,name,rfl,inHost,inPort⟩
  · have whole : (0x5d : UInt8) ∉ 0x5b :: inner := by simpa using absent
    rw [endpoint_open absent,startsWith_bracket,if_pos rfl,AuthorityPhases.parseBracketedIpv6,position_open whole]
  · rw [endpoint_closed absent,startsWith_bracket,if_pos rfl,AuthorityPhases.parseBracketedIpv6,position_whole absent]
    dsimp only
    rw [slice_bracket,drop_bracket,full_address]
    simp only [phases_port]
    cases isIpv6 address with
    | false => rfl
    | true =>
      refine (suffix_next suffix fun port =>
        (.ok ⟨0x5b :: (address.map toAsciiLowercase ++ [0x5d]),port⟩ : Result Authority)).trans ?_
      cases suffixValue suffix <;> rfl
  · rw [endpoint_plain name absent,name,if_neg (by decide),AuthorityPhases.parseDnsAuthority,(splitOnce_absent absent).1]
    refine (phases_dns text fun host => (.ok ⟨host,none⟩ : Result Authority)).trans ?_
    cases named text <;> rfl
  · have alone : port.contains 0x3a = false := by simpa using inPort
    rw [endpoint_port_first name inHost inPort,name,if_neg (by decide),AuthorityPhases.parseDnsAuthority,
      splitOnce_first inHost]
    simp only [alone,Bool.not_false,if_true,phases_port]
    cases portValue port with
    | error error => rfl
    | ok value =>
      refine (phases_dns host fun host => (.ok ⟨host,some value⟩ : Result Authority)).trans ?_
      cases named host <;> rfl
  · have again : (middle ++ 0x3a :: port).contains 0x3a = true := by simp
    rw [endpoint_colons name inPort,name,if_neg (by decide),AuthorityPhases.parseDnsAuthority,splitOnce_first inHost]
    simp only [again,Bool.not_true,Bool.false_eq_true,if_false]
    rfl

theorem algebra_dns (host : List UInt8) (port : Option Nat) :
    ((if ((stripSuffix 0x2e host).getD host).isEmpty || ((stripSuffix 0x2e host).getD host).length > 253 then
          invalidAuthority
        else if (((stripSuffix 0x2e host).getD host).splitOn 0x2e).any refusesLabel then invalidAuthority
        else .ok ⟨.dns ((stripSuffix 0x2e host).getD host),port⟩) : Result AuthorityEndpointAlgebra.ValidatedAuthority).map
        AuthorityEndpointAlgebra.canonicalize = (named host).map fun host => ⟨host,port⟩ := by
  rw [(refused_labels _).1]
  rcases named_cases host with ⟨long | labels,refused⟩ | ⟨short,labels,accepted⟩
  · rw [if_pos long,refused]
    rfl
  · rw [labels,refused]
    split <;> rfl
  · rw [short,labels,accepted]
    rfl

theorem algebra_endpoint (text : List UInt8) :
    (AuthorityEndpointAlgebra.validateAuthority text).map AuthorityEndpointAlgebra.canonicalize = endpoint text := by
  unfold AuthorityEndpointAlgebra.validateAuthority
  rw [apply_ite (Except.map AuthorityEndpointAlgebra.canonicalize)]
  refine guarded_endpoint outsideAlphabet alphabet_passes fun _ _ _ => ?_
  rcases host_cases text with ⟨inner,rfl,absent⟩ | ⟨address,suffix,rfl,absent⟩ | ⟨name,absent⟩ |
    ⟨host,port,name,rfl,inHost,inPort⟩ | ⟨host,middle,port,name,rfl,inHost,inPort⟩
  · rw [endpoint_open absent,startsWith_bracket,if_pos rfl,AuthorityEndpointAlgebra.validateIpv6Authority,List.drop_one,
      List.tail_cons,position_open absent]
    rfl
  · rw [endpoint_closed absent,startsWith_bracket,if_pos rfl,AuthorityEndpointAlgebra.validateIpv6Authority,List.drop_one,
      List.tail_cons,position_bracket absent]
    dsimp only
    rw [List.take_left,drop_hit]
    simp only [algebra_port]
    cases isIpv6 address with
    | false => rfl
    | true =>
      refine (congrArg (Except.map AuthorityEndpointAlgebra.canonicalize) (suffix_next suffix fun port =>
        .ok ⟨.ipv6 address,port⟩)).trans ?_
      cases suffixValue suffix <;> rfl
  · rw [endpoint_plain name absent,name,if_neg (by decide),AuthorityEndpointAlgebra.validateDnsAuthority,
      count_absent absent]
    exact algebra_dns text none
  · rw [endpoint_port_first name inHost inPort,name,if_neg (by decide),AuthorityEndpointAlgebra.validateDnsAuthority,
      count_one inHost inPort]
    simp only [splitOnce_first inHost,algebra_port]
    cases portValue port with
    | error error => rfl
    | ok value => exact algebra_dns host (some value)
  · obtain ⟨n,more⟩ := count_more host middle port
    rw [endpoint_colons name inPort,name,if_neg (by decide),AuthorityEndpointAlgebra.validateDnsAuthority,more]
    rfl

theorem lower_bracketed (address : List UInt8) :
    (0x5b :: (address ++ [0x5d])).map toAsciiLowercase = 0x5b :: (address.map toAsciiLowercase ++ [0x5d]) := by
  rw [List.map_cons,List.map_append]
  rfl

def loweredEndpoint (found : AuthoritySegmentPipeline.Endpoint) : Authority :=
  ⟨found.canonicalHost.map toAsciiLowercase,found.explicitPort⟩

theorem segment_dns (host : List UInt8) (port : Option Nat) :
    (AuthoritySegmentPipeline.validateDnsName ((stripSuffix 0x2e host).getD host) >>= fun _ =>
        .ok ⟨(stripSuffix 0x2e host).getD host,port⟩).map loweredEndpoint = (named host).map fun host => ⟨host,port⟩ := by
  unfold AuthoritySegmentPipeline.validateDnsName
  rw [(refused_labels _).2]
  rcases named_cases host with ⟨long | labels,refused⟩ | ⟨short,labels,accepted⟩
  · rw [if_pos long,refused]
    rfl
  · rw [labels,refused]
    split <;> rfl
  · rw [short,labels,accepted]
    rfl

theorem segment_suffix (suffix : List UInt8) : AuthoritySegmentPipeline.decodeSuffixPort suffix = suffixValue suffix := by
  unfold AuthoritySegmentPipeline.decodeSuffixPort AuthoritySegmentPipeline.decodePort suffixValue
  rw [bounded_port]

theorem guard_next {α : Type} (guard : Bool) (rest : Result α) :
    ((if guard then invalidAuthority else .ok () : Result Unit) >>= fun _ => rest) =
      if guard then invalidAuthority else rest := by
  cases guard <;> rfl

theorem segment_endpoint (text : List UInt8) :
    (AuthoritySegmentPipeline.decodeAuthority text).map loweredEndpoint = endpoint text := by
  unfold AuthoritySegmentPipeline.decodeAuthority AuthoritySegmentPipeline.validateAuthorityAlphabet
  rw [guard_next,apply_ite (Except.map loweredEndpoint)]
  refine guarded_endpoint outsideAlphabet alphabet_passes fun _ small _ => ?_
  rcases host_cases text with ⟨inner,rfl,absent⟩ | ⟨address,suffix,rfl,absent⟩ | ⟨name,absent⟩ |
    ⟨host,port,name,rfl,inHost,inPort⟩ | ⟨host,middle,port,name,rfl,inHost,inPort⟩
  · have whole : (0x5d : UInt8) ∉ 0x5b :: inner := by simpa using absent
    rw [endpoint_open absent,startsWith_bracket,if_pos rfl,AuthoritySegmentPipeline.decodeBracketedIpv6,
      position_open whole]
    rfl
  · have literal : Utf8.fromUtf8 address = some address := by
      refine if_pos (Utf8.valid_of_ascii fun b member => ?_)
      exact List.all_eq_true.mp small b (by simp [member])
    rw [endpoint_closed absent,startsWith_bracket,if_pos rfl,AuthoritySegmentPipeline.decodeBracketedIpv6,
      position_whole absent]
    dsimp only
    rw [slice_bracket,drop_bracket,take_bracket,literal]
    dsimp only
    rw [full_address,segment_suffix]
    cases isIpv6 address with
    | false => rfl
    | true =>
      cases suffixValue suffix with
      | error error => rfl
      | ok port => exact congrArg (fun host => (.ok ⟨host,port⟩ : Result Authority)) (lower_bracketed address)
  · rw [endpoint_plain name absent,name,if_neg (by decide),AuthoritySegmentPipeline.decodeDnsAuthority,
      position_none (miss_of_absent absent)]
    exact segment_dns text none
  · have alone : port.contains 0x3a = false := by simpa using inPort
    rw [endpoint_port_first name inHost inPort,name,if_neg (by decide),AuthoritySegmentPipeline.decodeDnsAuthority,
      position_append port (miss_of_absent inHost) rfl]
    dsimp only
    rw [drop_hit,List.take_left,alone,AuthoritySegmentPipeline.decodePort,bounded_port]
    cases portValue port with
    | error error => rfl
    | ok value => exact segment_dns host (some value)
  · have again : (middle ++ 0x3a :: port).contains 0x3a = true := by simp
    rw [endpoint_colons name inPort,name,if_neg (by decide),AuthoritySegmentPipeline.decodeDnsAuthority,
      position_append _ (miss_of_absent inHost) rfl]
    dsimp only
    rw [drop_hit,again]
    rfl

/-- The host of a table entry in lowercase, whichever kind it has. -/
def tabled (found : AuthorityInvariantTable.ValidAuthority) : Authority :=
  ⟨found.host.asStr.map toAsciiLowercase,found.explicitPort⟩

/-- An address keeps its brackets and a name has none. -/
def Marked : AuthorityInvariantTable.ValidHost → Prop
  | .dns value => startsWith 0x5b value = false
  | .ipv6 value => startsWith 0x5b value = true

/-- A parsed endpoint together with its mark. -/
def TableReads (parsed : Result AuthorityInvariantTable.ValidAuthority) (expected : Result Authority) : Prop :=
  parsed.map tabled = expected ∧ ∀ found, parsed = .ok found → Marked found.host

theorem tableReads_error {error : PolyguardError} : TableReads (.error error) (.error error) :=
  ⟨rfl,fun _ impossible => nomatch impossible⟩

theorem name_unbracketed {name : List UInt8} (labels : (name.splitOn 0x2e).all validDnsLabel) :
    startsWith 0x5b name = false := by
  rcases name with _ | ⟨first,rest⟩
  · rfl
  · have inside := name_bytes labels first (by simp)
    rw [startsWith,List.head?_cons,Option.some_beq_some,beq_eq_false_iff_ne]
    rintro rfl
    exact absurd inside (by decide)

theorem table_dns (host : List UInt8) (port : Option Nat) :
    TableReads (if ((stripSuffix 0x2e host).getD host).isEmpty || ((stripSuffix 0x2e host).getD host).length > 253 then
          invalidAuthority
        else if (((stripSuffix 0x2e host).getD host).splitOn 0x2e).any refusesLabel then invalidAuthority
        else .ok ⟨.dns ((stripSuffix 0x2e host).getD host),port⟩) ((named host).map fun host => ⟨host,port⟩) := by
  rw [(refused_labels _).1]
  rcases named_cases host with ⟨long | labels,refused⟩ | ⟨short,labels,accepted⟩
  · rw [if_pos long,refused]
    exact tableReads_error
  · rw [labels,refused]
    split <;> exact tableReads_error
  · rw [short,labels,accepted]
    refine ⟨rfl,fun found same => ?_⟩
    cases same
    exact name_unbracketed labels

theorem table_endpoint (text : List UInt8) : TableReads (AuthorityInvariantTable.parse text) (endpoint text) := by
  have unguarded : TableReads
      (if startsWith 0x5b text then AuthorityInvariantTable.parseIpv6 text else AuthorityInvariantTable.parseDns text)
      (endpoint text) := by
    rcases host_cases text with ⟨inner,rfl,absent⟩ | ⟨address,suffix,rfl,absent⟩ | ⟨name,absent⟩ |
      ⟨host,port,name,rfl,inHost,inPort⟩ | ⟨host,middle,port,name,rfl,inHost,inPort⟩
    · have whole : (0x5d : UInt8) ∉ 0x5b :: inner := by simpa using absent
      rw [endpoint_open absent,startsWith_bracket,if_pos rfl,AuthorityInvariantTable.parseIpv6,position_open whole]
      exact tableReads_error
    · rw [endpoint_closed absent,startsWith_bracket,if_pos rfl,AuthorityInvariantTable.parseIpv6,position_whole absent]
      dsimp only
      rw [slice_bracket,drop_bracket,take_bracket,full_address]
      simp only [AuthorityInvariantTable.parsePort,bounded_port]
      cases isIpv6 address with
      | false => exact tableReads_error
      | true =>
        have next := suffix_next suffix fun port =>
          (.ok ⟨.ipv6 (0x5b :: (address ++ [0x5d])),port⟩ : Result AuthorityInvariantTable.ValidAuthority)
        refine (congrArg (TableReads · _) next).mpr ?_
        cases suffixValue suffix with
        | error error => exact tableReads_error
        | ok port =>
          refine ⟨congrArg (fun host => (.ok ⟨host,port⟩ : Result Authority)) (lower_bracketed address),?_⟩
          intro found same
          cases same
          exact startsWith_bracket _
    · rw [endpoint_plain name absent,name,if_neg (by decide),AuthorityInvariantTable.parseDns,(splitOnce_absent absent).1]
      exact table_dns text none
    · have alone : port.contains 0x3a = false := by simpa using inPort
      rw [endpoint_port_first name inHost inPort,name,if_neg (by decide),AuthorityInvariantTable.parseDns,
        splitOnce_first inHost]
      simp only [alone,Bool.not_false,if_true,AuthorityInvariantTable.parsePort,bounded_port]
      cases portValue port with
      | error error => exact tableReads_error
      | ok value => exact table_dns host (some value)
    · have again : (middle ++ 0x3a :: port).contains 0x3a = true := by simp
      rw [endpoint_colons name inPort,name,if_neg (by decide),AuthorityInvariantTable.parseDns,splitOnce_first inHost]
      simp only [again,Bool.not_true,Bool.false_eq_true,if_false]
      exact tableReads_error
  have bytes : (fun byte => isAsciiWhitespace byte || isAsciiControl byte || byte == 0x2c || byte == 0x40 ||
      byte == 0x2f || byte == 0x3f || byte == 0x23 || byte == 0x25) = forbidden := by
    funext byte
    simp only [forbidden,Bool.or_assoc]
  unfold AuthorityInvariantTable.parse AuthorityInvariantTable.rejectForbiddenAuthorityBytes
  rw [guard_next,bytes]
  constructor
  · rw [apply_ite (Except.map tabled)]
    exact guarded_endpoint forbidden forbidden_passes fun _ _ _ => unguarded.1
  · intro found same
    split at same
    · cases same
    · exact unguarded.2 found same

theorem marked_same {left right : AuthorityInvariantTable.ValidHost} (leftMarked : Marked left) (rightMarked : Marked right) :
    AuthorityInvariantTable.sameCanonicalHost left right =
      (left.asStr.map toAsciiLowercase == right.asStr.map toAsciiLowercase) := by
  have bracket (byte : UInt8) : toAsciiLowercase byte = 0x5b ↔ byte = 0x5b :=
    forall_byte (p := fun b => toAsciiLowercase b = 0x5b ↔ b = 0x5b) (by decide) byte
  have lowers (text : List UInt8) : startsWith 0x5b (text.map toAsciiLowercase) = startsWith 0x5b text := by
    unfold startsWith
    cases text with
    | nil => rfl
    | cons first rest =>
      rw [List.map_cons,List.head?_cons,List.head?_cons,Option.some_beq_some,Option.some_beq_some,Bool.eq_iff_iff,
        beq_iff_eq,beq_iff_eq,bracket]
  have differ {name address : List UInt8} (plain : startsWith 0x5b name = false) (marked : startsWith 0x5b address = true) :
      name.map toAsciiLowercase ≠ address.map toAsciiLowercase := by
    intro same
    have both := congrArg (startsWith 0x5b) same
    rw [lowers,lowers,plain,marked] at both
    cases both
  cases left with
  | dns left =>
    cases right with
    | dns right => exact Bool.eq_iff_iff.mpr ((eqIgnoreAsciiCase_iff left right).trans beq_iff_eq.symm)
    | ipv6 right => exact (beq_eq_false_iff_ne.mpr (differ leftMarked rightMarked)).symm
  | ipv6 left =>
    cases right with
    | dns right => exact (beq_eq_false_iff_ne.mpr (Ne.symm (differ rightMarked leftMarked))).symm
    | ipv6 right => exact Bool.eq_iff_iff.mpr ((eqIgnoreAsciiCase_iff left right).trans beq_iff_eq.symm)

theorem endpoint_ascii {text : List UInt8} {found : Authority} (read : endpoint text = .ok found) :
    ∀ b ∈ found.host, isAscii b := by
  have lower {part : List UInt8} (small : ∀ b ∈ part, isAscii b) : ∀ b ∈ part.map toAsciiLowercase, isAscii b := by
    intro b member
    obtain ⟨c,inside,rfl⟩ := List.mem_map.mp member
    exact toAsciiLowercase_ascii (small c inside)
  have names {host name : List UInt8} (known : named host = .ok name) : ∀ b ∈ name, isAscii b := by
    rcases named_cases host with ⟨-,refused⟩ | ⟨-,labels,accepted⟩
    · rw [refused] at known
      cases known
    · rw [accepted] at known
      cases known
      exact lower (List.all_eq_true.mp (labels_ascii labels))
  rcases host_cases text with ⟨inner,rfl,absent⟩ | ⟨address,suffix,rfl,absent⟩ | ⟨name,absent⟩ |
    ⟨host,port,name,rfl,inHost,inPort⟩ | ⟨host,middle,port,name,rfl,inHost,inPort⟩
  · rw [endpoint_open absent] at read
    cases read
  · rw [endpoint_closed absent] at read
    cases literal : isIpv6 address with
    | false => simp [literal,invalidAuthority] at read
    | true =>
      rw [literal] at read
      cases valued : suffixValue suffix with
      | error error =>
        rw [valued] at read
        cases read
      | ok port =>
        rw [valued] at read
        cases read
        have small : ∀ b ∈ address, isAscii b := fun b member =>
          forall_byte (p := fun c => isAddressByte c → isAscii c) (by decide) b (isIpv6_bytes literal b member)
        intro b member
        simp only [List.mem_cons,List.mem_append,List.not_mem_nil,or_false] at member
        rcases member with rfl | inside | rfl
        · decide
        · exact lower small b inside
        · decide
  · rw [endpoint_plain name absent] at read
    cases known : named text with
    | error error =>
      rw [known] at read
      cases read
    | ok canonical =>
      rw [known] at read
      cases read
      exact names known
  · rw [endpoint_port name inHost inPort] at read
    obtain ⟨canonical,known,rest⟩ := bind_success read
    cases valued : portValue port with
    | error error =>
      rw [valued] at rest
      cases rest
    | ok value =>
      rw [valued] at rest
      cases rest
      exact names known
  · rw [endpoint_colons name inPort] at read
    cases read

end Polyguard.AuthorityAgreement
