import Polyguard.RequestTarget.Implementations

/-! The authority of a target.
An authority is a host, named or in brackets, and a port text of digits between 1
and 65535. Four implementations write the port back as a number and one writes its
text back, so that they differ exactly on a leading zero. -/
namespace Polyguard.RequestTarget
open Ascii Slices TargetBytes Decimal Address

def validPort (text : List UInt8) : Bool :=
  !text.isEmpty && text.all isAsciiDigit && (1 ≤ digitsValue text && digitsValue text ≤ u16Max)

/-- The canonical host in brackets and the text of its port. -/
def readBracketed (text : List UInt8) : Option (List UInt8 × Option (List UInt8)) :=
  match splitOnce 0x5d text with
  | none => none
  | some (front,suffix) =>
    if !isIpv6 (front.drop 1) then none
    else if suffix.isEmpty then some (front.map toAsciiLowercase ++ [0x5d],none)
    else if startsWith 0x3a suffix then some (front.map toAsciiLowercase ++ [0x5d],some (suffix.drop 1))
    else none

/-- The canonical host name and the text of its port; one final dot is dropped. -/
def readNamed (text : List UInt8) : Option (List UInt8 × Option (List UInt8)) :=
  let (host,port) := splitPort text
  let name := (stripSuffix 0x2e host).getD host
  if host.contains 0x3a || name.isEmpty || name.length > 253 || !(name.splitOn 0x2e).all validDnsLabel then none
  else some (name.map toAsciiLowercase,port)

def readHost (text : List UInt8) : Option (List UInt8 × Option (List UInt8)) :=
  if startsWith 0x5b text then readBracketed text else readNamed text

def portAllowed (required : Bool) : Option (List UInt8) → Bool
  | none => !required
  | some port => validPort port

def readAuthority (required : Bool) (text : List UInt8) : Option (List UInt8 × Option (List UInt8)) :=
  (readHost text).filter fun read => portAllowed required read.2

theorem digits_cases (text : List UInt8) :
    ((text.isEmpty || !text.all isAsciiDigit) = true ∧ validPort text = false) ∨
    ((text.isEmpty || !text.all isAsciiDigit) = false ∧ text ≠ [] ∧ (∀ b ∈ text, isAsciiDigit b) ∧
      validPort text = (1 ≤ digitsValue text && digitsValue text ≤ u16Max)) := by
  unfold validPort
  by_cases empty : text = []
  · exact .inl (by simp [empty])
  · cases digits : text.all isAsciiDigit with
    | false => exact .inl (by simp)
    | true => exact .inr ⟨by simp [empty],empty,List.all_eq_true.mp digits,by simp [empty]⟩

theorem portNumber_eq (text : List UInt8) :
    portNumber text = if validPort text then .ok (digitsValue text) else invalidAuthority := by
  unfold portNumber
  obtain ⟨guard,refused⟩ | ⟨guard,some,digits,valid⟩ := digits_cases text
  · rw [guard,refused]
    rfl
  · rw [guard,valid,parseUnsigned_digits some digits]
    by_cases fits : digitsValue text ≤ u16Max
    · by_cases zero : digitsValue text = 0
      · simp [zero]
      · simp [fits,zero,Nat.one_le_iff_ne_zero]
    · simp [fits]

theorem typed_port (text : List UInt8) :
    RequestTargetTypedMatrix.validatePort text = if validPort text then .ok () else invalidAuthority := by
  unfold RequestTargetTypedMatrix.validatePort
  obtain ⟨guard,refused⟩ | ⟨guard,some,digits,valid⟩ := digits_cases text
  · rw [guard,refused]
    rfl
  · rw [guard,valid,parseUnsigned_digits some digits]
    by_cases fits : digitsValue text ≤ u32Max
    · simp only [fits,Bool.false_eq_true,if_false,if_true]
      rfl
    · have beyond : ¬ digitsValue text ≤ u16Max := by
        simp only [u16Max,u32Max] at fits ⊢
        omega
      simp [fits,beyond]

theorem label_alphanumeric (byte : UInt8) (label : isLabelByte byte) :
    isAsciiAlphanumeric byte = !(byte == 0x2d) := by
  revert label
  exact forall_byte (p := fun b => isLabelByte b → isAsciiAlphanumeric b = !(b == 0x2d)) (by decide) byte

theorem typed_label (label : List UInt8) : RequestTargetTypedMatrix.validDnsLabel label = validDnsLabel label := by
  unfold RequestTargetTypedMatrix.validDnsLabel validDnsLabel startsWith endsWith
  by_cases labels : label.all isLabelByte
  · cases label with
    | nil => rfl
    | cons first rest =>
      have each := List.all_eq_true.mp labels
      obtain ⟨last,ends⟩ : ∃ last, (first :: rest).getLast? = some last := ⟨_,List.getLast?_eq_some_getLast (by simp)⟩
      have start := label_alphanumeric first (each first (by simp))
      have finish := label_alphanumeric last (each last (List.mem_of_getLast? ends))
      rw [ends,labels]
      simp [start,finish]
  · simp [labels]

theorem composable_label (label : List UInt8) :
    RequestTargetComposableValidators.validDnsLabel label = validDnsLabel label := by
  unfold RequestTargetComposableValidators.validDnsLabel validDnsLabel
  cases label with
  | nil => rfl
  | cons first rest =>
    simp only [List.isEmpty_cons,List.length_cons,Nat.le_add_left,decide_true,Bool.not_false,Bool.true_and]
    cases (first :: rest).all isLabelByte <;> simp

theorem name_bytes {name : List UInt8} (labels : (name.splitOn 0x2e).all validDnsLabel) :
    ∀ b ∈ name, isLabelByte b || b == 0x2e := by
  intro b member
  rcases splitOn_mem 0x2e member with rfl | ⟨label,among,within⟩
  · decide
  · have valid := List.all_eq_true.mp labels label among
    simp only [validDnsLabel,Bool.and_eq_true] at valid
    simp [List.all_eq_true.mp valid.2 b within]

theorem colon_cases (text : List UInt8) :
    ((0x3a : UInt8) ∉ text) ∨
    (∃ host port, text = host ++ 0x3a :: port ∧ (0x3a : UInt8) ∉ host ∧ (0x3a : UInt8) ∉ port) ∨
    ∃ host middle port, text = host ++ 0x3a :: (middle ++ 0x3a :: port) ∧ (0x3a : UInt8) ∉ host ∧
      (0x3a : UInt8) ∉ port := by
  have absent {part : List UInt8} (miss : ∀ b ∈ part, (b == 0x3a) = false) : (0x3a : UInt8) ∉ part := by
    intro member
    simpa using miss 0x3a member
  rcases first_hit (· == 0x3a) text with miss | ⟨host,hit,after,rfl,front,found⟩
  · exact .inl (absent miss)
  · obtain rfl : hit = 0x3a := by simpa using found
    rcases last_hit (· == 0x3a) after with none | ⟨middle,last,port,rfl,back,again⟩
    · exact .inr (.inl ⟨host,after,rfl,absent front,absent none⟩)
    · obtain rfl : last = 0x3a := by simpa using again
      exact .inr (.inr ⟨host,middle,port,rfl,absent front,absent back⟩)

/-- The bytes of an authority: labels, dots, colons and brackets. -/
def isAuthorityByte (byte : UInt8) : Bool :=
  isLabelByte byte || byte == 0x2e || byte == 0x3a || byte == 0x5b || byte == 0x5d

theorem authority_own (byte : UInt8) (inside : isAuthorityByte byte) : isForeign byte = false := by
  revert inside
  exact forall_byte (p := fun b => isAuthorityByte b → isForeign b = false) (by decide) byte

theorem label_inside (byte : UInt8) (label : isLabelByte byte || byte == 0x2e) : isAuthorityByte byte := by
  revert label
  exact forall_byte (p := fun b => isLabelByte b || b == 0x2e → isAuthorityByte b) (by decide) byte

theorem digit_inside (byte : UInt8) (digit : isAsciiDigit byte) : isAuthorityByte byte := by
  revert digit
  exact forall_byte (p := fun b => isAsciiDigit b → isAuthorityByte b) (by decide) byte

theorem address_inside (byte : UInt8) (address : isAddressByte byte) : isAuthorityByte byte := by
  revert address
  exact forall_byte (p := fun b => isAddressByte b → isAuthorityByte b) (by decide) byte

theorem port_inside {required : Bool} {port : List UInt8} (allowed : portAllowed required (some port)) :
    ∀ b ∈ port, isAuthorityByte b := by
  simp only [portAllowed,validPort,Bool.and_eq_true] at allowed
  intro b member
  exact digit_inside b (List.all_eq_true.mp allowed.1.2 b member)

theorem stripSuffix_mem {host : List UInt8} {b : UInt8} (member : b ∈ host) :
    b ∈ (stripSuffix 0x2e host).getD host ∨ b = 0x2e := by
  unfold stripSuffix
  split
  · rename_i dotted
    obtain ⟨init,rfl⟩ : ∃ init, host = init ++ [0x2e] := by
      have ends : host.getLast? = some 0x2e := by simpa using dotted
      exact ⟨host.dropLast,(List.dropLast_append_getLast? _ ends).symm⟩
    simpa using member
  · exact .inl member

/-- The forms of an authority: brackets left open, brackets closed, or a name with no, one or more colons. -/
theorem host_cases (text : List UInt8) :
    (∃ inner, text = 0x5b :: inner ∧ (0x5d : UInt8) ∉ inner) ∨
    (∃ address suffix, text = 0x5b :: (address ++ 0x5d :: suffix) ∧ (0x5d : UInt8) ∉ address) ∨
    (startsWith 0x5b text = false ∧ (0x3a : UInt8) ∉ text) ∨
    (∃ host port, startsWith 0x5b text = false ∧ text = host ++ 0x3a :: port ∧ (0x3a : UInt8) ∉ host ∧
      (0x3a : UInt8) ∉ port) ∨
    ∃ host middle port, startsWith 0x5b text = false ∧ text = host ++ 0x3a :: (middle ++ 0x3a :: port) ∧
      (0x3a : UInt8) ∉ host ∧ (0x3a : UInt8) ∉ port := by
  cases bracket : startsWith 0x5b text with
  | true =>
    obtain ⟨inner,rfl⟩ : ∃ inner, text = 0x5b :: inner := by
      cases text with
      | nil => simp [startsWith] at bracket
      | cons first inner => exact ⟨inner,by simpa [startsWith] using bracket⟩
    rcases first_hit (· == 0x5d) inner with miss | ⟨address,hit,suffix,rfl,miss,found⟩
    · exact .inl ⟨inner,rfl,fun member => by simpa using miss 0x5d member⟩
    · obtain rfl : hit = 0x5d := by simpa using found
      exact .inr (.inl ⟨address,suffix,rfl,fun member => by simpa using miss 0x5d member⟩)
  | false =>
    rcases colon_cases text with absent | ⟨host,port,same,inHost,inPort⟩ | ⟨host,middle,port,same,inHost,inPort⟩
    · exact .inr (.inr (.inl ⟨rfl,absent⟩))
    · exact .inr (.inr (.inr (.inl ⟨host,port,rfl,same,inHost,inPort⟩)))
    · exact .inr (.inr (.inr (.inr ⟨host,middle,port,rfl,same,inHost,inPort⟩)))

/-- A host name without its port. -/
def namedHost (host : List UInt8) : Option (List UInt8) :=
  let name := (stripSuffix 0x2e host).getD host
  if name.isEmpty || name.length > 253 || !(name.splitOn 0x2e).all validDnsLabel then none
  else some (name.map toAsciiLowercase)

/-- What follows the closing bracket. -/
def suffixPort (suffix : List UInt8) : Option (Option (List UInt8)) :=
  if suffix.isEmpty then some none
  else if startsWith 0x3a suffix then some (some (suffix.drop 1))
  else none

theorem readHost_open {inner : List UInt8} (absent : (0x5d : UInt8) ∉ inner) : readHost (0x5b :: inner) = none := by
  have none : splitOnce 0x5d (0x5b :: inner) = none := (splitOnce_absent (by simpa using absent)).1
  simp [readHost,startsWith,readBracketed,none]

theorem readHost_closed {address : List UInt8} (absent : (0x5d : UInt8) ∉ address) (suffix : List UInt8) :
    readHost (0x5b :: (address ++ 0x5d :: suffix)) =
      if !isIpv6 address then none
      else (suffixPort suffix).map fun port => (0x5b :: (address.map toAsciiLowercase ++ [0x5d]),port) := by
  have split : splitOnce 0x5d (0x5b :: (address ++ 0x5d :: suffix)) = some (0x5b :: address,suffix) := by
    rw [← List.cons_append]
    exact splitOnce_first (by simpa using absent) suffix
  have bracket : toAsciiLowercase 0x5b = 0x5b := by decide
  simp only [readHost,startsWith,List.head?_cons,beq_self_eq_true,if_true,readBracketed,split,List.drop_one,
    List.tail_cons,List.map_cons,bracket,suffixPort]
  split
  · rfl
  · split
    · rfl
    · split <;> rfl

theorem readHost_plain {text : List UInt8} (named : startsWith 0x5b text = false) (absent : (0x3a : UInt8) ∉ text) :
    readHost text = (namedHost text).map fun host => (host,none) := by
  have split : splitPort text = (text,none) := by simp [splitPort,(splitOnce_absent absent).2]
  have clear : text.contains 0x3a = false := by simpa using absent
  simp only [readHost,named,Bool.false_eq_true,if_false,readNamed,split,clear,Bool.false_or,namedHost]
  split <;> rfl

theorem readHost_port {host port : List UInt8} (named : startsWith 0x5b (host ++ 0x3a :: port) = false)
    (inHost : (0x3a : UInt8) ∉ host) (inPort : (0x3a : UInt8) ∉ port) :
    readHost (host ++ 0x3a :: port) = (namedHost host).map fun name => (name,some port) := by
  have split : splitPort (host ++ 0x3a :: port) = (host,some port) := by simp [splitPort,rsplitOnce_last inPort]
  have clear : host.contains 0x3a = false := by simpa using inHost
  simp only [readHost,named,Bool.false_eq_true,if_false,readNamed,split,clear,Bool.false_or,namedHost]
  split <;> rfl

theorem readHost_colons {host middle port : List UInt8}
    (named : startsWith 0x5b (host ++ 0x3a :: (middle ++ 0x3a :: port)) = false) (inPort : (0x3a : UInt8) ∉ port) :
    readHost (host ++ 0x3a :: (middle ++ 0x3a :: port)) = none := by
  have split : splitPort (host ++ 0x3a :: (middle ++ 0x3a :: port)) = (host ++ 0x3a :: middle,some port) := by
    rw [show host ++ 0x3a :: (middle ++ 0x3a :: port) = (host ++ 0x3a :: middle) ++ 0x3a :: port by simp,splitPort,
      rsplitOnce_last inPort]
  simp only [readHost,named,Bool.false_eq_true,if_false,readNamed,split]
  simp

theorem namedHost_inside {host name : List UInt8} (read : namedHost host = some name) :
    ∀ b ∈ host, isAuthorityByte b := by
  simp only [namedHost] at read
  split at read
  · cases read
  · rename_i valid
    simp only [Bool.or_eq_true,Bool.not_eq_true',not_or,Bool.not_eq_false] at valid
    intro b member
    rcases stripSuffix_mem member with inside | rfl
    · exact label_inside b (name_bytes valid.2 b inside)
    · decide

theorem readAuthority_inside {required : Bool} {text : List UInt8} {read : List UInt8 × Option (List UInt8)}
    (accepted : readAuthority required text = some read) : ∀ b ∈ text, isAuthorityByte b := by
  obtain ⟨host,allowed⟩ := Option.filter_eq_some_iff.mp accepted
  rcases host_cases text with ⟨inner,rfl,absent⟩ | ⟨address,suffix,rfl,absent⟩ | ⟨named,absent⟩ |
    ⟨front,port,named,rfl,inHost,inPort⟩ | ⟨front,middle,port,named,rfl,inHost,inPort⟩
  · rw [readHost_open absent] at host
    cases host
  · rw [readHost_closed absent] at host
    split at host
    · cases host
    · rename_i literal
      have addressBytes := isIpv6_bytes (by simpa using literal)
      obtain ⟨port,suffixed,rfl⟩ := Option.map_eq_some_iff.mp host
      have suffixInside : ∀ b ∈ suffix, isAuthorityByte b := by
        unfold suffixPort at suffixed
        split at suffixed
        · rename_i empty
          rw [List.isEmpty_iff.mp empty]
          simp
        · split at suffixed
          · rename_i colon
            cases suffixed
            cases suffix with
            | nil => simp
            | cons first rest =>
              obtain rfl : first = 0x3a := by simpa [startsWith] using colon
              intro b member
              rcases List.mem_cons.mp member with rfl | inside
              · decide
              · exact port_inside allowed b (by simpa using inside)
          · cases suffixed
      intro b member
      simp only [List.mem_cons,List.mem_append] at member
      rcases member with rfl | inside | rfl | later
      · decide
      · exact address_inside b (addressBytes b inside)
      · decide
      · exact suffixInside b later
  · rw [readHost_plain named absent] at host
    obtain ⟨name,found,-⟩ := Option.map_eq_some_iff.mp host
    exact namedHost_inside found
  · rw [readHost_port named inHost inPort] at host
    obtain ⟨name,found,rfl⟩ := Option.map_eq_some_iff.mp host
    intro b member
    simp only [List.mem_append,List.mem_cons] at member
    rcases member with inside | rfl | later
    · exact namedHost_inside found b inside
    · decide
    · exact port_inside allowed b later
  · rw [readHost_colons named inPort] at host
    cases host

/-- The authority as four implementations spell it. -/
def spelledAuthority (required : Bool) (text : List UInt8) : Result (List UInt8) :=
  (readAuthority required text).elim invalidAuthority fun read => .ok (withPort read.1 (read.2.map digitsValue))

/-- The authority with its port text as it stands. -/
def keptAuthority (required : Bool) (text : List UInt8) : Result (List UInt8) :=
  (readAuthority required text).elim invalidAuthority fun read => .ok (match read.2 with
    | none => read.1
    | some port => read.1 ++ 0x3a :: port)

theorem guarded_authority {required : Bool} {text : List UInt8} {parsed : Result (List UInt8)}
    (same : parsed = spelledAuthority required text) :
    (if text.isEmpty || text.any isForeign then invalidAuthority else parsed) = spelledAuthority required text := by
  split
  · rename_i refused
    unfold spelledAuthority
    cases accepted : readAuthority required text with
    | none => rfl
    | some read =>
      have own : ∀ b ∈ text, isForeign b = false := fun b member =>
        authority_own b (readAuthority_inside accepted b member)
      rcases text with _ | ⟨first,rest⟩
      · have nothing : readAuthority required [] = none := by cases required <;> decide
        rw [nothing] at accepted
        cases accepted
      · have clean : (first :: rest).any isForeign = false := by simpa using own
        simp [clean] at refused
  · exact same

theorem labels_ascii {name : List UInt8} (labels : (name.splitOn 0x2e).all validDnsLabel) : name.all isAscii := by
  apply List.all_eq_true.mpr
  intro b member
  have own := name_bytes labels b member
  revert own
  exact forall_byte (p := fun c => isLabelByte c || c == 0x2e → isAscii c) (by decide) b

theorem spelled_closed {address : List UInt8} (absent : (0x5d : UInt8) ∉ address) (suffix : List UInt8) (required : Bool) :
    spelledAuthority required (0x5b :: (address ++ 0x5d :: suffix)) =
      if !isIpv6 address then invalidAuthority
      else (((suffixPort suffix).filter (portAllowed required)).elim invalidAuthority fun port =>
        .ok (withPort (0x5b :: (address.map toAsciiLowercase ++ [0x5d])) (port.map digitsValue))) := by
  unfold spelledAuthority readAuthority
  rw [readHost_closed absent]
  split
  · rfl
  · cases suffixPort suffix with
    | none => rfl
    | some port =>
      simp only [Option.map_some,Option.filter_some]
      split <;> rfl

theorem spelled_named {text : List UInt8} {host : List UInt8} {port : Option (List UInt8)} (required : Bool)
    (read : readHost text = (namedHost host).map fun name => (name,port)) :
    spelledAuthority required text =
      if portAllowed required port then (namedHost host).elim invalidAuthority fun name =>
        .ok (withPort name (port.map digitsValue))
      else invalidAuthority := by
  unfold spelledAuthority readAuthority
  rw [read]
  cases namedHost host with
  | none => simp
  | some name =>
    simp only [Option.map_some,Option.filter_some]
    split <;> rfl

theorem spelled_failed {text : List UInt8} (required : Bool) (read : readHost text = none) :
    spelledAuthority required text = invalidAuthority := by
  unfold spelledAuthority readAuthority
  rw [read]
  rfl

/-- The port behind a closing bracket as a number. -/
def portSuffix (required : Bool) (suffix : List UInt8) : Result (Option Nat) :=
  ((suffixPort suffix).filter (portAllowed required)).elim invalidAuthority fun port => .ok (port.map digitsValue)

/-- The port behind a name as a number. -/
def portBehind (required : Bool) (port : Option (List UInt8)) : Result (Option Nat) :=
  if portAllowed required port then .ok (port.map digitsValue) else invalidAuthority

theorem portSuffix_cons (required : Bool) (first : UInt8) (rest : List UInt8) :
    portSuffix required (first :: rest) =
      if first == 0x3a then (portNumber rest).map some else invalidAuthority := by
  unfold portSuffix suffixPort startsWith
  rw [portNumber_eq]
  by_cases colon : first = 0x3a
  · by_cases valid : validPort rest <;>
      simp [colon,portAllowed,valid,Except.map,invalidAuthority,Option.filter_some]
  · simp [colon]

theorem portBehind_some (required : Bool) (port : List UInt8) :
    portBehind required (some port) = (portNumber port).map some := by
  unfold portBehind
  rw [portNumber_eq]
  by_cases valid : validPort port <;> simp [portAllowed,valid,Except.map,invalidAuthority]

theorem portBehind_none (required : Bool) :
    portBehind required none = if required then invalidAuthority else .ok none := by cases required <;> rfl

theorem ipv6_guards {address : List UInt8} (literal : isIpv6 address) :
    address.contains 0x25 = false ∧ address.isEmpty = false := by
  constructor
  · rw [List.contains_eq_mem,decide_eq_false_iff_not]
    intro percent
    exact absurd (isIpv6_bytes literal 0x25 percent) (by decide)
  · cases address with
    | nil => simp at literal
    | cons first rest => rfl

theorem spelled_bracket {address : List UInt8} (absent : (0x5d : UInt8) ∉ address) (suffix : List UInt8) (required : Bool) :
    spelledAuthority required (0x5b :: (address ++ 0x5d :: suffix)) =
      if !isIpv6 address then invalidAuthority
      else portSuffix required suffix >>= fun port =>
        .ok (withPort (0x5b :: (address.map toAsciiLowercase ++ [0x5d])) port) := by
  rw [spelled_closed absent,portSuffix]
  cases (suffixPort suffix).filter (portAllowed required) <;> rfl

theorem spelled_name {text : List UInt8} {host : List UInt8} {port : Option (List UInt8)} (required : Bool)
    (read : readHost text = (namedHost host).map fun name => (name,port)) :
    spelledAuthority required text = (namedHost host).elim invalidAuthority fun name =>
      portBehind required port >>= fun port => .ok (withPort name port) := by
  rw [spelled_named required read,portBehind]
  cases namedHost host <;> split <;> rfl

def requires : RequestTargetRules.PortRule → Bool
  | .required => true
  | .optional => false

theorem rules_suffix (suffix : List UInt8) (rule : RequestTargetRules.PortRule) :
    RequestTargetRules.portFromSuffix suffix rule = portSuffix (requires rule) suffix := by
  cases suffix with
  | nil => cases rule <;> rfl
  | cons first rest => cases rule <;> rw [portSuffix_cons] <;> rfl

/-- The name tests of the implementations that look for other than ASCII bytes first. -/
theorem namedHost_guarded (host : List UInt8) :
    namedHost host =
      if ((stripSuffix 0x2e host).getD host).isEmpty || ((stripSuffix 0x2e host).getD host).length > 253 ||
          !((stripSuffix 0x2e host).getD host).all isAscii then none
      else if !(((stripSuffix 0x2e host).getD host).splitOn 0x2e).all validDnsLabel then none
      else some (((stripSuffix 0x2e host).getD host).map toAsciiLowercase) := by
  unfold namedHost
  generalize (stripSuffix 0x2e host).getD host = name
  cases labels : (name.splitOn 0x2e).all validDnsLabel with
  | false => simp [labels]
  | true => simp [labels,labels_ascii labels]

theorem rules_name {text : List UInt8} (rule : RequestTargetRules.PortRule) {host : List UInt8}
    {port : Option (List UInt8)} (split : splitPort text = (host,port)) (absent : (0x3a : UInt8) ∉ host) :
    RequestTargetRules.dnsAuthority text rule = (namedHost host).elim invalidAuthority fun name =>
      portBehind (requires rule) port >>= fun port => .ok (name,port) := by
  have clear : host.contains 0x3a = false := by simpa using absent
  simp only [RequestTargetRules.dnsAuthority,split,clear,Bool.false_eq_true,if_false,namedHost_guarded]
  split
  · rfl
  · split
    · rfl
    · cases port with
      | none => cases rule <;> rfl
      | some port => rw [Option.elim_some,portBehind_some]; rfl

theorem splitPort_colons (host middle : List UInt8) {port : List UInt8} (inPort : (0x3a : UInt8) ∉ port) :
    splitPort (host ++ 0x3a :: (middle ++ 0x3a :: port)) = (host ++ 0x3a :: middle,some port) := by
  rw [show host ++ 0x3a :: (middle ++ 0x3a :: port) = (host ++ 0x3a :: middle) ++ 0x3a :: port by simp,splitPort,
    rsplitOnce_last inPort]

theorem splitPort_absent {text : List UInt8} (absent : (0x3a : UInt8) ∉ text) : splitPort text = (text,none) := by
  simp [splitPort,(splitOnce_absent absent).2]

theorem splitPort_last (host : List UInt8) {port : List UInt8} (inPort : (0x3a : UInt8) ∉ port) :
    splitPort (host ++ 0x3a :: port) = (host,some port) := by
  simp [splitPort,rsplitOnce_last inPort]

theorem rules_authority (text : List UInt8) (rule : RequestTargetRules.PortRule) :
    RequestTargetRules.canonicalAuthority text rule = spelledAuthority (requires rule) text := by
  unfold RequestTargetRules.canonicalAuthority
  apply guarded_authority
  rcases host_cases text with ⟨inner,rfl,absent⟩ | ⟨address,suffix,rfl,absent⟩ | ⟨named,absent⟩ |
    ⟨front,port,named,rfl,inHost,inPort⟩ | ⟨front,middle,port,named,rfl,inHost,inPort⟩
  · rw [spelled_failed _ (readHost_open absent)]
    simp [startsWith,RequestTargetRules.bracketedAuthority,position_none (miss_of_absent absent)]
  · have found := position_append suffix (miss_of_absent absent) (beq_self_eq_true (0x5d : UInt8))
    rw [spelled_bracket absent,← rules_suffix]
    cases literal : isIpv6 address with
    | false => simp [startsWith,RequestTargetRules.bracketedAuthority,found,literal]
    | true =>
      have zone := (ipv6_guards literal).1
      simp only [startsWith,List.head?_cons,beq_self_eq_true,if_true,List.drop_one,List.tail_cons,
        RequestTargetRules.bracketedAuthority,found,take_hit,drop_hit,literal,zone,Bool.not_true,Bool.or_self,
        Bool.false_eq_true,if_false,bind_assoc,bind_ok]
  · rw [spelled_name _ (readHost_plain named absent),named,rules_name rule (splitPort_absent absent) absent]
    cases namedHost text <;> simp
  · rw [spelled_name _ (readHost_port named inHost inPort),named,rules_name rule (splitPort_last front inPort) inHost]
    cases namedHost front <;> simp
  · rw [spelled_failed _ (readHost_colons named inPort),named]
    simp [RequestTargetRules.dnsAuthority,splitPort_colons front middle inPort]

theorem pipeline_suffix (suffix : List UInt8) (required : Bool) :
    RequestTargetValidatedPipeline.validatePortSuffix suffix required = portSuffix required suffix := by
  unfold RequestTargetValidatedPipeline.validatePortSuffix
  cases suffix with
  | nil => cases required <;> rfl
  | cons first rest =>
    rw [portSuffix_cons]
    by_cases colon : first = 0x3a <;> simp [startsWith,colon,RequestTargetValidatedPipeline.validatePort]

theorem pipeline_name {text : List UInt8} (required : Bool) {host : List UInt8} {port : Option (List UInt8)}
    (split : splitPort text = (host,port)) (absent : (0x3a : UInt8) ∉ host) :
    (RequestTargetValidatedPipeline.validateDnsAuthority text required >>= fun authority =>
      .ok (RequestTargetValidatedPipeline.canonicalAuthority authority)) =
        (namedHost host).elim invalidAuthority fun name =>
          portBehind required port >>= fun port => .ok (withPort name port) := by
  have clear : host.contains 0x3a = false := by simpa using absent
  simp only [RequestTargetValidatedPipeline.validateDnsAuthority,split,clear,Bool.false_eq_true,if_false,
    namedHost_guarded]
  generalize (stripSuffix 0x2e host).getD host = name
  cases empty : name.isEmpty with
  | true => simp
  | false =>
    by_cases long : name.length > 253
    · simp [long,Nat.not_le.mpr long]
    · cases small : name.all isAscii with
      | false => simp
      | true =>
        cases labels : (name.splitOn 0x2e).all validDnsLabel with
        | false => simp
        | true =>
          cases port with
          | none => cases required <;>
              simp [portBehind_none,long,Nat.not_lt.mp long,RequestTargetValidatedPipeline.canonicalAuthority]
          | some port =>
            simp [portBehind_some,long,Nat.not_lt.mp long,RequestTargetValidatedPipeline.canonicalAuthority,
              RequestTargetValidatedPipeline.validatePort]

theorem pipeline_authority (text : List UInt8) (required : Bool) :
    (RequestTargetValidatedPipeline.validateAuthority text required >>= fun authority =>
      .ok (RequestTargetValidatedPipeline.canonicalAuthority authority)) = spelledAuthority required text := by
  unfold RequestTargetValidatedPipeline.validateAuthority
  rw [apply_ite (· >>= _),invalidAuthority_bind]
  apply guarded_authority
  rcases host_cases text with ⟨inner,rfl,absent⟩ | ⟨address,suffix,rfl,absent⟩ | ⟨named,absent⟩ |
    ⟨front,port,named,rfl,inHost,inPort⟩ | ⟨front,middle,port,named,rfl,inHost,inPort⟩
  · rw [spelled_failed _ (readHost_open absent)]
    simp [startsWith,RequestTargetValidatedPipeline.validateIpv6Authority,position_none (miss_of_absent absent)]
  · have found := position_append suffix (miss_of_absent absent) (beq_self_eq_true (0x5d : UInt8))
    rw [spelled_bracket absent,← pipeline_suffix]
    cases literal : isIpv6 address with
    | false => simp [startsWith,RequestTargetValidatedPipeline.validateIpv6Authority,found,literal]
    | true =>
      have zone := (ipv6_guards literal).1
      simp only [startsWith,List.head?_cons,beq_self_eq_true,if_true,List.drop_one,List.tail_cons,
        RequestTargetValidatedPipeline.validateIpv6Authority,found,take_hit,drop_hit,literal,zone,Bool.not_true,
        Bool.or_self,Bool.false_eq_true,if_false,bind_assoc,bind_ok,
        RequestTargetValidatedPipeline.canonicalAuthority]
  · rw [spelled_name _ (readHost_plain named absent),named]
    exact pipeline_name required (splitPort_absent absent) absent
  · rw [spelled_name _ (readHost_port named inHost inPort),named]
    exact pipeline_name required (splitPort_last front inPort) inHost
  · rw [spelled_failed _ (readHost_colons named inPort),named]
    simp [RequestTargetValidatedPipeline.validateDnsAuthority,splitPort_colons front middle inPort]

theorem composable_suffix (suffix : List UInt8) (required : Bool) :
    RequestTargetComposableValidators.validatePortSuffix suffix required = portSuffix required suffix := by
  unfold RequestTargetComposableValidators.validatePortSuffix
  cases suffix with
  | nil => cases required <;> rfl
  | cons first rest =>
    rw [portSuffix_cons]
    by_cases colon : first = 0x3a <;> simp [startsWith,colon,RequestTargetComposableValidators.validatePort]

theorem composable_name {text : List UInt8} (required : Bool) {host : List UInt8} {port : Option (List UInt8)}
    (split : splitPort text = (host,port)) (absent : (0x3a : UInt8) ∉ host) :
    (RequestTargetComposableValidators.validateDns text required >>= fun authority =>
      .ok (RequestTargetComposableValidators.renderAuthority authority)) =
        (namedHost host).elim invalidAuthority fun name =>
          portBehind required port >>= fun port => .ok (withPort name port) := by
  have clear : host.contains 0x3a = false := by simpa using absent
  have labelTest : RequestTargetComposableValidators.validDnsLabel = validDnsLabel := funext composable_label
  simp only [RequestTargetComposableValidators.validateDns,split,clear,Bool.false_eq_true,if_false,
    namedHost_guarded,labelTest]
  generalize (stripSuffix 0x2e host).getD host = name
  cases guard : name.isEmpty || decide (name.length > 253) || !name.all isAscii with
  | true => simp
  | false =>
    cases labels : (name.splitOn 0x2e).all validDnsLabel with
    | false => simp
    | true =>
      cases port with
      | none => cases required <;> simp [portBehind_none,RequestTargetComposableValidators.renderAuthority]
      | some port =>
        simp [portBehind_some,RequestTargetComposableValidators.renderAuthority,
          RequestTargetComposableValidators.validatePort]

theorem composable_authority (text : List UInt8) (required : Bool) :
    (RequestTargetComposableValidators.validateAuthority text required >>= fun authority =>
      .ok (RequestTargetComposableValidators.renderAuthority authority)) = spelledAuthority required text := by
  unfold RequestTargetComposableValidators.validateAuthority
  rw [apply_ite (· >>= _),invalidAuthority_bind]
  apply guarded_authority
  rcases host_cases text with ⟨inner,rfl,absent⟩ | ⟨address,suffix,rfl,absent⟩ | ⟨named,absent⟩ |
    ⟨front,port,named,rfl,inHost,inPort⟩ | ⟨front,middle,port,named,rfl,inHost,inPort⟩
  · rw [spelled_failed _ (readHost_open absent)]
    simp [startsWith,RequestTargetComposableValidators.validateIpv6,position_none (miss_of_absent absent)]
  · have found := position_append suffix (miss_of_absent absent) (beq_self_eq_true (0x5d : UInt8))
    rw [spelled_bracket absent,← composable_suffix]
    cases literal : isIpv6 address with
    | false => simp [startsWith,RequestTargetComposableValidators.validateIpv6,found,literal]
    | true =>
      obtain ⟨zone,nonempty⟩ := ipv6_guards literal
      simp only [startsWith,List.head?_cons,beq_self_eq_true,if_true,List.drop_one,List.tail_cons,
        RequestTargetComposableValidators.validateIpv6,found,take_hit,drop_hit,literal,zone,nonempty,Bool.not_true,
        Bool.or_self,Bool.false_eq_true,if_false,bind_assoc,bind_ok,
        RequestTargetComposableValidators.renderAuthority]
  · rw [spelled_name _ (readHost_plain named absent),named]
    exact composable_name required (splitPort_absent absent) absent
  · rw [spelled_name _ (readHost_port named inHost inPort),named]
    exact composable_name required (splitPort_last front inPort) inHost
  · rw [spelled_failed _ (readHost_colons named inPort),named]
    simp [RequestTargetComposableValidators.validateDns,splitPort_colons front middle inPort]

theorem offsets_suffix (suffix : List UInt8) (required : Bool) :
    RequestTargetInvariantOffsets.normalizePortSuffix suffix required = portSuffix required suffix := by
  unfold RequestTargetInvariantOffsets.normalizePortSuffix
  cases suffix with
  | nil => cases required <;> rfl
  | cons first rest =>
    rw [portSuffix_cons]
    by_cases colon : first = 0x3a <;> simp [startsWith,colon,RequestTargetInvariantOffsets.parsePort]

theorem offsets_name {text : List UInt8} (required : Bool) {host : List UInt8} {port : Option (List UInt8)}
    (split : splitPort text = (host,port)) (absent : (0x3a : UInt8) ∉ host) :
    RequestTargetInvariantOffsets.normalizeDnsAuthority text required =
      (namedHost host).elim invalidAuthority fun name =>
        portBehind required port >>= fun port => .ok (withPort name port) := by
  have clear : host.contains 0x3a = false := by simpa using absent
  simp only [RequestTargetInvariantOffsets.normalizeDnsAuthority,split,clear,Bool.false_eq_true,if_false,
    namedHost_guarded,← List.not_all_eq_any_not]
  split
  · rfl
  · split
    · rfl
    · cases port with
      | none => cases required <;> rfl
      | some port => rw [Option.elim_some,portBehind_some]; rfl

theorem offsets_authority (text : List UInt8) (required : Bool) :
    RequestTargetInvariantOffsets.normalizeAuthority text required = spelledAuthority required text := by
  unfold RequestTargetInvariantOffsets.normalizeAuthority
  apply guarded_authority
  rcases host_cases text with ⟨inner,rfl,absent⟩ | ⟨address,suffix,rfl,absent⟩ | ⟨named,absent⟩ |
    ⟨front,port,named,rfl,inHost,inPort⟩ | ⟨front,middle,port,named,rfl,inHost,inPort⟩
  · have missing : (0x5d : UInt8) ∉ 0x5b :: inner := by simpa using absent
    rw [spelled_failed _ (readHost_open absent)]
    simp [startsWith,RequestTargetInvariantOffsets.normalizeIpv6Authority,position_none (miss_of_absent missing)]
  · have missing : (0x5d : UInt8) ∉ 0x5b :: address := by simpa using absent
    have found := position_append suffix (miss_of_absent missing) (beq_self_eq_true (0x5d : UInt8))
    rw [List.cons_append] at found
    have inside : slice (0x5b :: (address ++ 0x5d :: suffix)) 1 (0x5b :: address).length = address := by
      simp [slice]
    have behind : (0x5b :: (address ++ 0x5d :: suffix)).drop ((0x5b :: address).length + 1) = suffix :=
      drop_hit (0x5b :: address) 0x5d suffix
    rw [spelled_bracket absent,← offsets_suffix]
    cases literal : isIpv6 address with
    | false =>
      simp only [startsWith,List.head?_cons,beq_self_eq_true,if_true,
        RequestTargetInvariantOffsets.normalizeIpv6Authority,found,inside,literal,Bool.not_false,Bool.or_true]
    | true =>
      obtain ⟨zone,nonempty⟩ := ipv6_guards literal
      simp only [startsWith,List.head?_cons,beq_self_eq_true,if_true,
        RequestTargetInvariantOffsets.normalizeIpv6Authority,found,inside,behind,literal,zone,nonempty,
        Bool.not_true,Bool.or_self,Bool.false_eq_true,if_false]
  · rw [spelled_name _ (readHost_plain named absent),named]
    exact offsets_name required (splitPort_absent absent) absent
  · rw [spelled_name _ (readHost_port named inHost inPort),named]
    exact offsets_name required (splitPort_last front inPort) inHost
  · rw [spelled_failed _ (readHost_colons named inPort),named]
    simp [RequestTargetInvariantOffsets.normalizeDnsAuthority,splitPort_colons front middle inPort]

theorem labels_dots {host : List UInt8} (dots : (ascii "..").isSuffixOf host) :
    (((stripSuffix 0x2e host).getD host).splitOn 0x2e).all validDnsLabel = false := by
  obtain ⟨front,rfl⟩ := List.isSuffixOf_iff_suffix.mp dots
  have strip : (stripSuffix 0x2e (front ++ ascii "..")).getD (front ++ ascii "..") = front ++ [0x2e] := by
    rw [show ascii ".." = [0x2e] ++ [0x2e] from rfl,← List.append_assoc]
    simp [stripSuffix]
  rw [strip,List.splitOn_append_cons_self]
  simp [validDnsLabel]

/-- The port of the typed matrix, checked and left as it stands. -/
def portRequired : RequestTargetTypedMatrix.AuthorityPort → Bool
  | .required => true
  | .optional => false

theorem typed_named (host : List UInt8) (port : Option (List UInt8)) :
    (let name := (stripSuffix 0x2e host).getD host
     if name.isEmpty || name.length > 253 || !(name.splitOn 0x2e).all RequestTargetTypedMatrix.validDnsLabel ||
        (ascii "..").isSuffixOf host then (invalidAuthority : Result (List UInt8 × Option (List UInt8)))
     else .ok (name,port)) =
      if (namedHost host).isNone then invalidAuthority else .ok ((stripSuffix 0x2e host).getD host,port) := by
  have labelTest : RequestTargetTypedMatrix.validDnsLabel = validDnsLabel := funext typed_label
  rw [labelTest]
  simp only [namedHost]
  cases dots : (ascii "..").isSuffixOf host with
  | true => simp [labels_dots dots]
  | false =>
    simp only [Bool.or_false]
    split <;> simp

theorem namedHost_name {host name : List UInt8} (read : namedHost host = some name) :
    name = ((stripSuffix 0x2e host).getD host).map toAsciiLowercase := by
  simp only [namedHost] at read
  split at read
  · cases read
  · exact (Option.some.inj read).symm

theorem typed_hosts (text : List UInt8) :
    (RequestTargetTypedMatrix.parseHost text >>= fun read => .ok (read.1.map toAsciiLowercase,read.2)) =
      (readHost text).elim invalidAuthority .ok := by
  unfold RequestTargetTypedMatrix.parseHost
  rcases host_cases text with ⟨inner,rfl,absent⟩ | ⟨address,suffix,rfl,absent⟩ | ⟨named,absent⟩ |
    ⟨front,port,named,rfl,inHost,inPort⟩ | ⟨front,middle,port,named,rfl,inHost,inPort⟩
  · have missing : (0x5d : UInt8) ∉ 0x5b :: inner := by simpa using absent
    rw [readHost_open absent]
    simp [startsWith,RequestTargetTypedMatrix.bracketedHost,position_none (miss_of_absent missing)]
  · have missing : (0x5d : UInt8) ∉ 0x5b :: address := by simpa using absent
    have found := position_append suffix (miss_of_absent missing) (beq_self_eq_true (0x5d : UInt8))
    rw [List.cons_append] at found
    have inside : slice (0x5b :: (address ++ 0x5d :: suffix)) 1 (0x5b :: address).length = address := by
      simp [slice]
    have behind : (0x5b :: (address ++ 0x5d :: suffix)).drop ((0x5b :: address).length + 1) = suffix :=
      drop_hit (0x5b :: address) 0x5d suffix
    have front : (0x5b :: (address ++ 0x5d :: suffix)).take ((0x5b :: address).length + 1) =
        0x5b :: (address ++ [0x5d]) := by
      rw [show 0x5b :: (address ++ 0x5d :: suffix) = (0x5b :: (address ++ [0x5d])) ++ suffix by simp,
        show (0x5b :: address).length + 1 = (0x5b :: (address ++ [0x5d])).length by simp,List.take_left]
    have lowered : (0x5b :: (address ++ [0x5d])).map toAsciiLowercase =
        0x5b :: (address.map toAsciiLowercase ++ [0x5d]) := by
      rw [List.map_cons,List.map_append]
      rfl
    rw [readHost_closed absent]
    cases literal : isIpv6 address with
    | false =>
      simp only [startsWith,List.head?_cons,beq_self_eq_true,if_true,RequestTargetTypedMatrix.bracketedHost,found,
        inside,literal,Bool.not_false,Bool.or_true,invalidAuthority_bind,Option.elim_none]
    | true =>
      obtain ⟨zone,nonempty⟩ := ipv6_guards literal
      simp only [startsWith,List.head?_cons,beq_self_eq_true,if_true,RequestTargetTypedMatrix.bracketedHost,found,
        inside,behind,front,literal,zone,nonempty,Bool.not_true,Bool.or_self,Bool.false_eq_true,if_false,suffixPort]
      cases suffix with
      | nil => simp [lowered]
      | cons first rest => by_cases colon : first = 0x3a <;> simp [colon,lowered]
  · rw [readHost_plain named absent,named]
    simp only [Bool.false_eq_true,if_false,RequestTargetTypedMatrix.namedHost,(splitOnce_absent absent).1,bind_ok]
    rw [typed_named]
    cases read : namedHost text with
    | none => rfl
    | some name => simp [namedHost_name read]
  · have clear : port.contains 0x3a = false := by simpa using inPort
    rw [readHost_port named inHost inPort,named]
    simp only [Bool.false_eq_true,if_false,RequestTargetTypedMatrix.namedHost,splitOnce_first inHost,clear,bind_ok]
    rw [typed_named]
    cases read : namedHost front with
    | none => rfl
    | some name => simp [namedHost_name read]
  · rw [readHost_colons named inPort,named]
    simp [RequestTargetTypedMatrix.namedHost,splitOnce_first inHost]

theorem typed_check (rule : RequestTargetTypedMatrix.AuthorityPort) (port : Option (List UInt8)) :
    RequestTargetTypedMatrix.checkPort rule port =
      if portAllowed (portRequired rule) port then .ok () else invalidAuthority := by
  cases port with
  | none => cases rule <;> rfl
  | some port => cases rule <;> exact typed_port port

theorem typed_authority {text : List UInt8} (rule : RequestTargetTypedMatrix.AuthorityPort)
    (small : ∀ b ∈ text, isAscii b) :
    RequestTargetTypedMatrix.canonicalAuthority text rule = keptAuthority (portRequired rule) text := by
  have hosts := typed_hosts text
  unfold RequestTargetTypedMatrix.canonicalAuthority keptAuthority readAuthority
  cases text with
  | nil => cases rule <;> rfl
  | cons first rest =>
    have plain : (first :: rest).all isAscii := List.all_eq_true.mpr small
    simp only [List.isEmpty_cons,plain,Bool.not_true,Bool.or_self,Bool.false_eq_true,if_false]
    cases parsed : RequestTargetTypedMatrix.parseHost (first :: rest) with
    | error error =>
      cases read : readHost (first :: rest) with
      | none =>
        obtain rfl : error = .invalidAuthority := by simpa [read,parsed,invalidAuthority] using hosts
        rfl
      | some host => simp [read,parsed] at hosts
    | ok parts =>
      cases read : readHost (first :: rest) with
      | none => simp [read,parsed,invalidAuthority] at hosts
      | some host =>
        obtain rfl : (parts.1.map toAsciiLowercase,parts.2) = host := by simpa [read,parsed] using hosts
        rw [bind_ok,typed_check,Option.filter_some]
        by_cases allowed : portAllowed (portRequired rule) parts.2
        · rw [if_pos allowed,if_pos allowed]
          cases parts.2 <;> simp [RequestTargetTypedMatrix.renderAuthority]
        · rw [if_neg allowed,if_neg allowed]
          rfl

theorem spellings_agree {required : Bool} {text host : List UInt8} {port : Option (List UInt8)}
    (read : readAuthority required text = some (host,port)) :
    keptAuthority required text = spelledAuthority required text ↔ ∀ digits, port = some digits → digits.head? ≠ some 0x30 := by
  unfold keptAuthority spelledAuthority
  rw [read]
  cases port with
  | none => simp [withPort]
  | some port =>
    obtain ⟨-,allowed⟩ := Option.filter_eq_some_iff.mp read
    simp only [portAllowed,validPort,Bool.and_eq_true,Bool.not_eq_true',decide_eq_true_eq] at allowed
    have some : port ≠ [] := by simpa using allowed.1.1
    have unpadded := decimal_eq_iff some (List.all_eq_true.mp allowed.1.2) allowed.2.1
    simp only [Option.elim_some,Option.map_some,withPort,Except.ok.injEq,List.append_cancel_left_eq,List.cons.injEq,
      true_and,Option.some.injEq,forall_eq']
    rw [← unpadded]
    exact eq_comm

end Polyguard.RequestTarget
