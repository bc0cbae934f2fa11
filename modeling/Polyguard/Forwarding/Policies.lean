import Polyguard.Authority.Rendered
import Polyguard.Forwarding.Implementations

/-! The policies that a request is forwarded under.
The client is the text of an address, the scheme is one of two words and the host is the
text of a reconciled authority; every implementation accepts them, and its new hop is
the same text, well below the limit. -/
namespace Polyguard.ForwardingAgreement
open Ascii Slices Decimal Address TargetBytes RequestTarget AuthorityAgreement
open Proxy (AddressParts parseIpAddr)

/-- A policy for a client of this address. -/
structure Served (address : IpAddr) (policy : ForwardingPolicy) : Prop where
  client : policy.clientIp = address.display
  scheme : isHttpScheme policy.proto = true
  host : Rendered policy.host

section Clients

def parts : IpAddr → AddressParts
  | .v4 octets _ _ => .v4 octets
  | .v6 segments _ _ => .v6 segments

theorem display_string (address : IpAddr) : addressString (parts address) = address.display := by
  cases address <;> rfl

theorem parse_display (address : IpAddr) : parseIpAddr address.display = some (parts address) := by
  cases address with
  | v4 octets four small =>
    change parseWith _ (displayIpv4 octets) = _
    unfold parseWith
    dsimp only
    rw [readIpv4Addr_octets four small]
    rfl
  | v6 segments eight small =>
    change parseWith _ (displayIpv6 segments) = _
    unfold parseWith
    dsimp only
    rw [readIpv4Addr_groups eight small,readIpv6Addr_display eight small]
    rfl

theorem display_bytes (address : IpAddr) : ∀ b ∈ address.display, isAddressByte b := by
  have whole {text : List UInt8} (used : Used text []) : ∀ b ∈ text, isAddressByte b := by
    obtain ⟨bytes,rfl,address⟩ := used
    simpa using address
  cases address with
  | v4 octets four small => exact whole (readIpv4Addr_used _ (readIpv4Addr_octets four small))
  | v6 segments eight small => exact whole (readIpv6Addr_used (readIpv6Addr_display eight small))

theorem display_some (address : IpAddr) : address.display ≠ [] := by
  intro empty
  have parsed := parse_display address
  rw [empty] at parsed
  exact absurd parsed (by rw [show parseIpAddr [] = none from by decide]; exact fun impossible => by cases impossible)

theorem displayIpv4_length {octets : List Nat} (four : octets.length = 4) (small : ∀ octet ∈ octets, octet < 256) :
    (displayIpv4 octets).length ≤ 15 := by
  have digits {octet : Nat} (member : octet ∈ octets) : (render 10 octet).length ≤ 3 :=
    render_length (by decide) (by decide) (by have := small octet member; omega)
  match octets,four with
  | [one,two,three,last],_ =>
    have := @digits one (by simp)
    have := @digits two (by simp)
    have := @digits three (by simp)
    have := @digits last (by simp)
    simp only [displayIpv4,List.map_cons,List.map_nil,separated,List.flatMap_cons,List.flatMap_nil,List.append_nil,List.length_append,
      List.length_cons]
    omega

theorem parseIpv4_octets {octets : List Nat} (four : octets.length = 4) (small : ∀ octet ∈ octets, octet < 256) :
    parseIpv4 (displayIpv4 octets) = some octets := by
  unfold parseIpv4 parseWith
  rw [if_neg (by have := displayIpv4_length four small; omega),readIpv4Addr_octets four small]

theorem parseIpv4_segments {segments : List Nat} (eight : segments.length = 8) (small : ∀ segment ∈ segments, segment < 65536) :
    parseIpv4 (displayIpv6 segments) = none := by
  unfold parseIpv4 parseWith
  rw [readIpv4Addr_groups eight small,ite_self]

theorem display_short (address : IpAddr) : address.display.length ≤ 274 := by
  cases address with
  | v4 octets four small => exact (displayIpv4_length four small).trans (by decide)
  | v6 segments eight small =>
    have bound := within_ipv6 (displayIpv6 segments) segments [] (readIpv6Addr_display eight small)
    rwa [List.length_nil,Nat.zero_add] at bound

theorem display_absent (address : IpAddr) {byte : UInt8} (outside : isAddressByte byte = false) : byte ∉ address.display := by
  intro member
  rw [display_bytes address byte member] at outside
  cases outside

theorem display_unbracketed (address : IpAddr) :
    (address.display.any fun byte => byte == 0x5b || byte == 0x5d || byte == 0x25) = false := by
  rw [List.any_eq_false]
  intro b member
  exact forall_byte (p := fun b => isAddressByte b → ¬ (b == 0x5b || b == 0x5d || b == 0x25) = true) (by decide) b
    (display_bytes address b member)

theorem table_client (address : IpAddr) : ForwardingDecisionTable.validateClientAddress address.display = .ok (parts address) := by
  have some : address.display.isEmpty = false := List.isEmpty_eq_false_iff.mpr (display_some address)
  have zone : address.display.contains 0x25 = false := by simpa using @display_absent address 0x25 (by decide)
  have opened : startsWith 0x5b address.display = false := by
    rw [startsWith,beq_eq_false_iff_ne]
    exact fun first => display_absent address (by decide) (List.mem_of_mem_head? first)
  have closed : endsWith 0x5d address.display = false := by
    rw [endsWith,beq_eq_false_iff_ne]
    exact fun last => display_absent address (by decide) (List.mem_of_mem_getLast? last)
  unfold ForwardingDecisionTable.validateClientAddress
  rw [some,zone,opened,closed,parse_display address]
  cases address with
  | v4 octets four small =>
    change (if displayIpv4 octets = displayIpv4 octets then _ else _) = _
    exact if_pos rfl
  | v6 segments eight small => rfl

theorem central_client (address : IpAddr) : ForwardingCentralTransition.canonicalClient address.display = .ok (parts address) := by
  unfold ForwardingCentralTransition.canonicalClient
  rw [display_unbracketed address,parse_display address]
  dsimp only
  rw [if_neg Bool.false_ne_true,if_neg (not_not.mpr (display_string address))]

/-- The address with the text that it was read from. -/
def clientAddress : IpAddr → ForwardingTransitionModel.ClientAddress
  | .v4 octets _ _ => .v4 (displayIpv4 octets)
  | .v6 segments _ _ => .v6 (displayIpv6 segments)

theorem transition_client (address : IpAddr) :
    ForwardingTransitionModel.validateClientAddress address.display = .ok (clientAddress address) := by
  unfold ForwardingTransitionModel.validateClientAddress
  rw [display_unbracketed address,parse_display address,if_neg Bool.false_ne_true]
  cases address with
  | v4 octets four small =>
    change (if displayIpv4 octets = displayIpv4 octets then _ else _) = _
    exact if_pos rfl
  | v6 segments eight small => rfl

def clientFamily : IpAddr → ForwardingDirectMatch.ClientFamily
  | .v4 _ _ _ => .v4
  | .v6 _ _ _ => .v6

theorem direct_client (address : IpAddr) : ForwardingDirectMatch.clientFamily address.display = .ok (clientFamily address) := by
  unfold ForwardingDirectMatch.clientFamily
  cases address with
  | v4 octets four small =>
    change (if (parseIpv4 (displayIpv4 octets)).any fun octets' => displayIpv4 octets' == displayIpv4 octets then _ else _) = _
    rw [parseIpv4_octets four small,Option.any_some,beq_self_eq_true,if_pos rfl]
    rfl
  | v6 segments eight small =>
    change (if (parseIpv4 (displayIpv6 segments)).any fun octets' => displayIpv4 octets' == displayIpv6 segments then _
      else if (parseIpv6 (displayIpv6 segments)).any fun segments' => displayIpv6 segments' == displayIpv6 segments then _ else _) = _
    rw [parseIpv4_segments eight small,Option.any_none,if_neg Bool.false_ne_true,parseIpv6_display eight small,Option.any_some,
      beq_self_eq_true,if_pos rfl]
    rfl

def ipFamily : IpAddr → ForwardingPrimitiveBoundary.IpFamily
  | .v4 _ _ _ => .v4
  | .v6 _ _ _ => .v6

theorem primitive_client (address : IpAddr) : ForwardingPrimitiveBoundary.ipFamily address.display = .ok (ipFamily address) := by
  have unbracketed := display_unbracketed address
  have some : address.display.isEmpty = false := List.isEmpty_eq_false_iff.mpr (display_some address)
  unfold ForwardingPrimitiveBoundary.ipFamily
  rw [unbracketed,some]
  cases address with
  | v4 octets four small =>
    dsimp only [IpAddr.display]
    rw [parseIpv4_octets four small]
    change (if displayIpv4 octets = displayIpv4 octets then _ else _) = _
    exact if_pos rfl
  | v6 segments eight small =>
    dsimp only [IpAddr.display]
    rw [parseIpv4_segments eight small,parseIpv6_display eight small]
    rfl

end Clients

section Hosts

theorem rendered_bytes {text : List UInt8} (rendered : Rendered text) : refusesHostBytes text = false := by
  have small : text.all isAscii = true := List.all_eq_true.mpr fun b member =>
    forall_byte (p := fun b => isAuthorityByte b → isAscii b) (by decide) b (rendered.inside b member)
  have clean : text.any refusesHostByte = false := List.any_eq_false.mpr fun b member =>
    forall_byte (p := fun b => isAuthorityByte b → ¬ refusesHostByte b = true) (by decide) b (rendered.inside b member)
  unfold refusesHostBytes
  rw [List.isEmpty_eq_false_iff.mpr rendered.some,small,clean]
  rfl

theorem rendered_ascii {text : List UInt8} (rendered : Rendered text) : (text.isEmpty || !text.all isAscii) = false := by
  have small : text.all isAscii = true := List.all_eq_true.mpr fun b member =>
    forall_byte (p := fun b => isAuthorityByte b → isAscii b) (by decide) b (rendered.inside b member)
  rw [List.isEmpty_eq_false_iff.mpr rendered.some,small]
  rfl

section Ports
variable {port : Nat} (range : 1 ≤ port ∧ port ≤ 65535)
include range

theorem table_port : ForwardingDecisionTable.validatePort (decimal port) = .ok () := by
  unfold ForwardingDecisionTable.validatePort
  rw [decimal_plain port,decimal_port range,if_neg Bool.false_ne_true]
  exact if_pos range.1

theorem direct_port : ForwardingDirectMatch.validatePort (decimal port) = .ok () := by
  unfold ForwardingDirectMatch.validatePort
  rw [decimal_port range]
  exact if_pos ⟨range.1,List.all_eq_true.mpr (decimal_digits port)⟩

theorem transition_port : ForwardingTransitionModel.validPort (decimal port) = true := by
  unfold ForwardingTransitionModel.validPort isForwardingPort
  rw [List.isEmpty_eq_false_iff.mpr (decimal_ne_nil port),List.all_eq_true.mpr (decimal_digits port),decimal_port range,
    Option.any_some,decide_eq_true range.1]
  rfl

theorem central_port : ForwardingCentralTransition.validatePort (decimal port) = .ok () := by
  unfold ForwardingCentralTransition.validatePort
  rw [decimal_plain port,decimal_port range,if_neg Bool.false_ne_true]
  exact if_neg (by omega)

theorem primitive_port : ForwardingPrimitiveBoundary.validatePort (decimal port) = .ok () := by
  unfold ForwardingPrimitiveBoundary.validatePort
  rw [decimal_port range]
  exact if_pos ⟨range.1,List.all_eq_true.mpr (decimal_digits port)⟩

end Ports

section Names
variable {name : List UInt8} (lower : LowerName name)
include lower

theorem name_measured : authorityWithoutDot name = name ∧ (name.isEmpty || decide (name.length > 253)) = false := by
  have short := lower.length
  refine ⟨?_,?_⟩
  · rw [authorityWithoutDot,lower.withoutDot]
    rfl
  · rw [List.isEmpty_eq_false_iff.mpr lower.some,Bool.false_or,decide_eq_false_iff_not]
    omega

theorem name_colonless : (0x3a : UInt8) ∉ name := lower.absent (by decide)

omit lower in
theorem label_edges {label : List UInt8} (lower : LowerLabel label) : ∃ first last, label.head? = some first ∧
    label.getLast? = some last ∧ isAsciiAlphanumeric first = true ∧ isAsciiAlphanumeric last = true := by
  have full : label ≠ [] := List.length_pos_iff.mp lower.length.1
  have edge (byte : UInt8) (member : byte ∈ label) (other : byte ≠ 0x2d) : isAsciiAlphanumeric byte = true := by
    have kinds := lower.bytes byte member
    exact forall_byte (p := fun b => isAsciiLowercase b ∨ isAsciiDigit b ∨ b = 0x2d → b ≠ 0x2d → isAsciiAlphanumeric b = true)
      (by decide) byte kinds other
  have first := List.head?_eq_some_head full
  have last := List.getLast?_eq_some_getLast full
  refine ⟨_,_,first,last,edge _ (List.head_mem full) fun same => ?_,edge _ (List.getLast_mem full) fun same => ?_⟩
  · exact lower.first (by rw [first,same])
  · exact lower.last (by rw [last,same])

theorem primitive_labels : (name.splitOn 0x2e).any ForwardingPrimitiveBoundary.refusesDnsLabel = false := by
  rw [List.any_eq_false]
  intro label among
  obtain ⟨first,last,head,final,firstEdge,lastEdge⟩ := label_edges (lower.labels label among)
  have valid := (lower.labels label among).valid
  simp only [validDnsLabel,Bool.and_eq_true] at valid
  have short := (lower.labels label among).length.2
  have bytes : (label.all fun byte => isAsciiAlphanumeric byte || byte == 0x2d) = true := valid.2
  simp [ForwardingPrimitiveBoundary.refusesDnsLabel,head,final,firstEdge,lastEdge,bytes,short]

theorem transition_name : ForwardingTransitionModel.validDnsName name = true := by
  obtain ⟨undotted,measured⟩ := name_measured lower
  have labels : (name.splitOn 0x2e).all ForwardingTransitionModel.validLabel = true := by
    rw [List.all_eq_true]
    intro label among
    obtain ⟨first,last,head,final,firstEdge,lastEdge⟩ := label_edges (lower.labels label among)
    have valid := (lower.labels label among).valid
    simp only [validDnsLabel,Bool.and_eq_true] at valid
    have bytes : (label.all fun byte => isAsciiAlphanumeric byte || byte == 0x2d) = true := valid.2
    unfold ForwardingTransitionModel.validLabel
    rw [valid.1.1.1.1,valid.1.1.1.2,bytes,head,final,Option.any_some,Option.any_some,firstEdge,lastEdge]
    rfl
  unfold ForwardingTransitionModel.validDnsName
  dsimp only
  rw [undotted,labels,List.isEmpty_eq_false_iff.mpr lower.some,decide_eq_true lower.length]
  rfl

omit lower in
theorem central_bytes {text : List UInt8} (plain : ∀ b ∈ text, isLabelByte b ∨ b = 0x2e ∨ b = 0x3a) :
    text.any ForwardingCentralTransition.refusesNameByte = false :=
  List.any_eq_false.mpr fun b member => forall_byte (p := fun b => isLabelByte b ∨ b = 0x2e ∨ b = 0x3a →
    ¬ ForwardingCentralTransition.refusesNameByte b = true) (by decide) b (plain b member)

end Names

theorem table_host {text : List UInt8} (rendered : Rendered text) : ForwardingDecisionTable.validateHostAuthority text = .ok () := by
  have clean := rendered_bytes rendered
  unfold ForwardingDecisionTable.validateHostAuthority
  rw [clean,if_neg Bool.false_ne_true]
  cases rendered with
  | name lower =>
    obtain ⟨undotted,measured⟩ := name_measured lower
    have unbracketed := lower.unbracketed []
    rw [List.append_nil] at unbracketed
    rw [unbracketed,if_neg Bool.false_ne_true,ForwardingDecisionTable.validateNamedHost,(splitOnce_absent (name_colonless lower)).1]
    dsimp only
    rw [bind_ok]
    dsimp only
    rw [undotted,measured,lower.accepted]
    rfl
  | @namePort name lower port range =>
    obtain ⟨undotted,measured⟩ := name_measured lower
    have colonless : (decimal port).contains 0x3a = false := by simpa using decimal_colonless port
    rw [lower.unbracketed,if_neg Bool.false_ne_true,ForwardingDecisionTable.validateNamedHost,splitOnce_first (name_colonless lower)]
    dsimp only
    rw [colonless,if_neg Bool.false_ne_true,bind_ok]
    dsimp only
    rw [undotted,measured,lower.accepted]
    exact table_port range
  | @literal address accepted =>
    have absent := @literal_absent _ accepted 0x5d (by decide)
    rw [startsWith_bracket,if_pos rfl,ForwardingDecisionTable.validateBracketedHost,position_whole absent []]
    dsimp only
    rw [slice_bracket,full_address,accepted,drop_bracket]
    rfl
  | @literalPort address accepted port range =>
    have absent := @literal_absent _ accepted 0x5d (by decide)
    rw [startsWith_bracket,if_pos rfl,ForwardingDecisionTable.validateBracketedHost,position_whole absent (0x3a :: decimal port)]
    dsimp only
    rw [slice_bracket,full_address,accepted,drop_bracket]
    exact table_port range

theorem literal_checks {address : List UInt8} (accepted : isIpv6 address) :
    (address.isEmpty || address.contains 0x25 || !isIpv6 address) = false := by
  have zone : address.contains 0x25 = false := by simpa using @literal_absent _ accepted 0x25 (by decide)
  rw [literal_some accepted,zone,accepted]
  rfl

theorem direct_host {text : List UInt8} (rendered : Rendered text) : ForwardingDirectMatch.validateHost text = .ok () := by
  have clean := rendered_bytes rendered
  unfold ForwardingDirectMatch.validateHost
  rw [clean,if_neg Bool.false_ne_true]
  cases rendered with
  | name lower =>
    obtain ⟨undotted,measured⟩ := name_measured lower
    have unbracketed := lower.unbracketed []
    rw [List.append_nil] at unbracketed
    rw [unbracketed,if_neg Bool.false_ne_true,(splitOnce_absent (name_colonless lower)).1]
    dsimp only
    rw [bind_ok]
    dsimp only
    rw [undotted,measured,lower.accepted]
    rfl
  | @namePort name lower port range =>
    obtain ⟨undotted,measured⟩ := name_measured lower
    have colonless : (decimal port).contains 0x3a = false := by simpa using decimal_colonless port
    rw [lower.unbracketed,if_neg Bool.false_ne_true,splitOnce_first (name_colonless lower)]
    dsimp only
    rw [colonless,if_neg Bool.false_ne_true,bind_ok]
    dsimp only
    rw [undotted,measured,lower.accepted]
    exact direct_port range
  | @literal address accepted =>
    have absent := @literal_absent _ accepted 0x5d (by decide)
    rw [startsWith_bracket,if_pos rfl,List.drop_one,List.tail_cons,splitOnce_first absent]
    dsimp only
    rw [literal_checks accepted]
    rfl
  | @literalPort address accepted port range =>
    have absent := @literal_absent _ accepted 0x5d (by decide)
    rw [startsWith_bracket,if_pos rfl,List.drop_one,List.tail_cons,splitOnce_first absent]
    dsimp only
    rw [literal_checks accepted]
    exact direct_port range

theorem transition_host {text : List UInt8} (rendered : Rendered text) :
    ForwardingTransitionModel.validateAuthority text = .ok () := by
  have clean := rendered_ascii rendered
  unfold ForwardingTransitionModel.validateAuthority
  rw [clean,if_neg Bool.false_ne_true]
  cases rendered with
  | name lower =>
    have unbracketed := lower.unbracketed []
    rw [List.append_nil] at unbracketed
    rw [unbracketed,if_neg Bool.false_ne_true,(splitOnce_absent (name_colonless lower)).2]
    dsimp only
    rw [bind_ok]
    dsimp only
    rw [transition_name lower]
    rfl
  | @namePort name lower port range =>
    have colonless : name.contains 0x3a = false := by simpa using name_colonless lower
    rw [lower.unbracketed,if_neg Bool.false_ne_true,rsplitOnce_last (decimal_colonless port)]
    dsimp only
    rw [colonless,if_neg Bool.false_ne_true,bind_ok]
    dsimp only
    rw [transition_name lower,Option.any_some,transition_port range]
    rfl
  | @literal address accepted =>
    have absent := @literal_absent _ accepted 0x5d (by decide)
    rw [startsWith_bracket,if_pos rfl,List.drop_one,List.tail_cons]
    dsimp only
    rw [position_bracket absent []]
    dsimp only
    rw [List.take_left,List.drop_left,literal_checks accepted]
    rfl
  | @literalPort address accepted port range =>
    have absent := @literal_absent _ accepted 0x5d (by decide)
    rw [startsWith_bracket,if_pos rfl,List.drop_one,List.tail_cons]
    dsimp only
    rw [position_bracket absent (0x3a :: decimal port)]
    dsimp only
    rw [List.take_left,List.drop_left,literal_checks accepted,ForwardingTransitionModel.validPortSuffix]
    rw [show (0x5d :: 0x3a :: decimal port).drop 1 = 0x3a :: decimal port from rfl,List.drop_one,List.tail_cons,transition_port range]
    rfl

theorem central_name {name : List UInt8} (lower : LowerName name) : ForwardingCentralTransition.validateDnsName name = .ok () := by
  obtain ⟨undotted,measured⟩ := name_measured lower
  unfold ForwardingCentralTransition.validateDnsName
  dsimp only
  rw [undotted,measured,lower.accepted]
  rfl

theorem central_host {text : List UInt8} (rendered : Rendered text) :
    ForwardingCentralTransition.validateAuthority text = .ok () := by
  have clean := rendered_ascii rendered
  unfold ForwardingCentralTransition.validateAuthority
  rw [clean,if_neg Bool.false_ne_true]
  cases rendered with
  | name lower =>
    have unbracketed := lower.unbracketed []
    have plain : ∀ b ∈ text, isLabelByte b ∨ b = 0x2e ∨ b = 0x3a := fun b member =>
      (lower.bytes b member).imp_right .inl
    rw [List.append_nil] at unbracketed
    rw [unbracketed,if_neg Bool.false_ne_true,central_bytes plain,if_neg Bool.false_ne_true,(splitOnce_absent (name_colonless lower)).2]
    dsimp only
    rw [bind_ok]
    dsimp only
    rw [central_name lower,bind_ok]
  | @namePort name lower port range =>
    have colonless : name.contains 0x3a = false := by simpa using name_colonless lower
    have plain : ∀ b ∈ name ++ 0x3a :: decimal port, isLabelByte b ∨ b = 0x2e ∨ b = 0x3a := by
      intro b member
      rcases List.mem_append.mp member with front | back
      · exact (lower.bytes b front).imp_right .inl
      · rcases List.mem_cons.mp back with rfl | digit
        · exact .inr (.inr rfl)
        · refine .inl ?_
          exact forall_byte (p := fun b => isAsciiDigit b → isLabelByte b) (by decide) b (decimal_digits port b digit)
    rw [lower.unbracketed,if_neg Bool.false_ne_true,central_bytes plain,if_neg Bool.false_ne_true,
      rsplitOnce_last (decimal_colonless port)]
    dsimp only
    rw [colonless,if_neg Bool.false_ne_true,bind_ok]
    dsimp only
    rw [central_name lower,bind_ok]
    exact central_port range
  | @literal address accepted =>
    have absent := @literal_absent _ accepted 0x5d (by decide)
    rw [startsWith_bracket,if_pos rfl,List.drop_one,List.tail_cons]
    dsimp only
    rw [position_bracket absent []]
    dsimp only
    rw [List.take_left,drop_hit,accepted]
    rfl
  | @literalPort address accepted port range =>
    have absent := @literal_absent _ accepted 0x5d (by decide)
    rw [startsWith_bracket,if_pos rfl,List.drop_one,List.tail_cons]
    dsimp only
    rw [position_bracket absent (0x3a :: decimal port)]
    dsimp only
    rw [List.take_left,drop_hit,accepted]
    exact central_port range

theorem primitive_host {text : List UInt8} (rendered : Rendered text) :
    ForwardingPrimitiveBoundary.validateHostAuthority text = .ok () := by
  have clean := rendered_bytes rendered
  unfold ForwardingPrimitiveBoundary.validateHostAuthority
  rw [clean,if_neg Bool.false_ne_true]
  cases rendered with
  | name lower =>
    obtain ⟨undotted,measured⟩ := name_measured lower
    have unbracketed := lower.unbracketed []
    rw [List.append_nil] at unbracketed
    rw [unbracketed,if_neg Bool.false_ne_true,ForwardingPrimitiveBoundary.validateDnsAuthority,
      (splitOnce_absent (name_colonless lower)).1]
    dsimp only
    rw [bind_ok]
    dsimp only
    rw [undotted,measured,primitive_labels lower]
    rfl
  | @namePort name lower port range =>
    obtain ⟨undotted,measured⟩ := name_measured lower
    have colonless : (decimal port).contains 0x3a = false := by simpa using decimal_colonless port
    rw [lower.unbracketed,if_neg Bool.false_ne_true,ForwardingPrimitiveBoundary.validateDnsAuthority,
      splitOnce_first (name_colonless lower)]
    dsimp only
    rw [colonless,if_neg Bool.false_ne_true,bind_ok]
    dsimp only
    rw [undotted,measured,primitive_labels lower]
    exact primitive_port range
  | @literal address accepted =>
    have absent := @literal_absent _ accepted 0x5d (by decide)
    rw [startsWith_bracket,if_pos rfl,ForwardingPrimitiveBoundary.validateIpv6Authority,position_whole absent []]
    dsimp only
    rw [slice_bracket,literal_checks accepted,drop_bracket]
    rfl
  | @literalPort address accepted port range =>
    have absent := @literal_absent _ accepted 0x5d (by decide)
    rw [startsWith_bracket,if_pos rfl,ForwardingPrimitiveBoundary.validateIpv6Authority,position_whole absent (0x3a :: decimal port)]
    dsimp only
    rw [slice_bracket,literal_checks accepted,drop_bracket]
    exact primitive_port range

end Hosts

section Hops

/-- The node of the client in a hop: an IPv6 address stands in brackets and quotes. -/
def node (address : IpAddr) : List UInt8 :=
  match address with
  | .v4 _ _ _ => address.display
  | .v6 _ _ _ => ascii "\"[" ++ address.display ++ ascii "]\""

/-- The hop that a policy adds. -/
def hop (address : IpAddr) (policy : ForwardingPolicy) : List UInt8 :=
  ascii "for=" ++ node address ++ ascii ";proto=" ++ policy.proto ++ ascii ";host=\"" ++ policy.host ++ ascii "\""

theorem rendered_unquoted {text : List UInt8} (rendered : Rendered text) : ∀ b ∈ text, isQuotedByte b = false := fun b member =>
  forall_byte (p := fun b => isAuthorityByte b → isQuotedByte b = false) (by decide) b (rendered.inside b member)

theorem escape_rendered {text : List UInt8} (rendered : Rendered text) : escapeQuoted text = text ∧ escapedHostBytes text = 0 := by
  have plain := rendered_unquoted rendered
  constructor
  · unfold escapeQuoted
    rw [List.flatMap_congr fun b member => if_neg (by rw [plain b member]; exact Bool.false_ne_true)]
    exact List.flatMap_singleton' text
  · unfold escapedHostBytes
    rw [List.countP_eq_zero]
    intro b member
    rw [plain b member]
    exact Bool.false_ne_true

theorem scheme_short {proto : List UInt8} (scheme : isHttpScheme proto = true) : proto.length ≤ 5 := by
  unfold isHttpScheme at scheme
  rw [Bool.or_eq_true,beq_iff_eq,beq_iff_eq] at scheme
  rcases scheme with rfl | rfl <;> decide

theorem node_length (address : IpAddr) : (node address).length ≤ address.display.length + 4 := by
  cases address with
  | v4 octets four small => exact Nat.le_add_right _ _
  | v6 segments eight small =>
    unfold node
    dsimp only
    rw [List.length_append,List.length_append]
    exact (by decide : (ascii "\"[").length = 2 ∧ (ascii "]\"").length = 2) |> fun both => by omega

theorem hop_length (address : IpAddr) (policy : ForwardingPolicy) :
    (hop address policy).length = 19 + (node address).length + policy.proto.length + policy.host.length := by
  unfold hop
  simp only [List.length_append]
  have fixed : (ascii "for=").length = 4 ∧ (ascii ";proto=").length = 7 ∧ (ascii ";host=\"").length = 7 ∧ (ascii "\"").length = 1 := by
    decide
  omega

theorem Served.short {address : IpAddr} {policy : ForwardingPolicy} (served : Served address policy) :
    (hop address policy).length ≤ forwardingValueLimit ∧ policy.clientIp.length ≤ forwardingValueLimit ∧
      policy.proto.length ≤ forwardingValueLimit ∧ policy.host.length ≤ forwardingValueLimit := by
  have hopped := hop_length address policy
  have noded := node_length address
  have client := display_short address
  have scheme := scheme_short served.scheme
  have host := served.host.short
  rw [served.client]
  unfold forwardingValueLimit
  omega

end Hops

end Polyguard.ForwardingAgreement
