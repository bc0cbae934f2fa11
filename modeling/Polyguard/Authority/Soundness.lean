import Polyguard.Authority.Agreement
import Polyguard.Bytes.AddressCase

/-! What a reconciled authority stands for.
Whichever implementation returns one, it is the endpoint of the target, or else of the
only host field, without the port that the scheme implies; and where both name one they
name the same. -/
namespace Polyguard.AuthorityAgreement
open Ascii Slices Decimal Address TargetBytes RequestTarget

section Hosts

/-- A label of a host name, in lowercase. -/
structure LowerLabel (label : List UInt8) : Prop where
  length : 1 ≤ label.length ∧ label.length ≤ 63
  bytes : ∀ b ∈ label, isAsciiLowercase b ∨ isAsciiDigit b ∨ b = 0x2d
  first : label.head? ≠ some 0x2d
  last : label.getLast? ≠ some 0x2d

/-- A host name in lowercase, without a final dot. -/
structure LowerName (name : List UInt8) : Prop where
  length : name.length ≤ 253
  labels : ∀ label ∈ name.splitOn 0x2e, LowerLabel label
  undotted : name.getLast? ≠ some 0x2e

/-- A literal between brackets that the parser of addresses accepts, in lowercase. -/
def BracketedLiteral (host : List UInt8) : Prop :=
  ∃ address, host = 0x5b :: (address ++ [0x5d]) ∧ isIpv6 address ∧ address.map toAsciiLowercase = address

def CanonicalHost (host : List UInt8) : Prop := LowerName host ∨ BracketedLiteral host

theorem lowerLabel {label : List UInt8} (valid : validDnsLabel label) : LowerLabel (label.map toAsciiLowercase) := by
  unfold validDnsLabel startsWith endsWith at valid
  simp only [Bool.and_eq_true,Bool.not_eq_true',decide_eq_true_eq,List.isEmpty_eq_false_iff,beq_eq_false_iff_ne,ne_eq] at valid
  obtain ⟨⟨⟨⟨some,short⟩,first⟩,last⟩,bytes⟩ := valid
  have hyphen (byte : UInt8) : toAsciiLowercase byte = 0x2d ↔ byte = 0x2d :=
    forall_byte (p := fun b => toAsciiLowercase b = 0x2d ↔ b = 0x2d) (by decide) byte
  have end' {found : Option UInt8} (other : found ≠ .some 0x2d) : found.map toAsciiLowercase ≠ .some 0x2d := by
    intro same
    obtain ⟨byte,held,lower⟩ := Option.map_eq_some_iff.mp same
    exact other (held.trans (congrArg Option.some ((hyphen byte).mp lower)))
  refine ⟨?_,?_,?_,?_⟩
  · rw [List.length_map]
    exact ⟨List.length_pos_iff.mpr some,short⟩
  · intro b member
    obtain ⟨byte,inside,rfl⟩ := List.mem_map.mp member
    exact forall_byte (p := fun b => isLabelByte b → isAsciiLowercase (toAsciiLowercase b) ∨ isAsciiDigit (toAsciiLowercase b) ∨
      toAsciiLowercase b = 0x2d) (by decide) byte (List.all_eq_true.mp bytes byte inside)
  · rw [List.head?_map]
    exact end' first
  · rw [List.getLast?_map]
    exact end' last

theorem nil_mem_splitOn (separator : UInt8) (text : List UInt8) : [] ∈ ((text ++ [separator]).splitOn separator).tail := by
  induction text with
  | nil =>
    rw [List.nil_append,List.splitOn_cons_eq_if_modifyHead,beq_self_eq_true,if_pos rfl]
    exact List.mem_cons_self
  | cons first text ih =>
    obtain ⟨head,tail,split⟩ := List.exists_cons_of_ne_nil (List.splitOn_ne_nil separator (text ++ [separator]))
    rw [split] at ih
    rw [List.cons_append,List.splitOn_cons_eq_if_modifyHead,split]
    split
    · exact List.mem_cons_of_mem _ ih
    · exact ih

theorem namedHost_lower {host name : List UInt8} (read : namedHost host = some name) : LowerName name := by
  unfold namedHost at read
  dsimp only at read
  split at read
  · cases read
  · rename_i valid
    simp only [Bool.or_eq_true,Bool.not_eq_true',not_or,Bool.not_eq_false,decide_eq_true_eq,Nat.not_lt,gt_iff_lt] at valid
    obtain ⟨⟨-,short⟩,labels⟩ := valid
    cases read
    have all : ∀ label ∈ ((((stripSuffix 0x2e host).getD host)).map toAsciiLowercase).splitOn 0x2e, LowerLabel label := by
      rw [splitOn_map dot_caseless]
      intro label member
      obtain ⟨written,among,rfl⟩ := List.mem_map.mp member
      exact lowerLabel (List.all_eq_true.mp labels written among)
    refine ⟨by rw [List.length_map]; exact short,all,?_⟩
    intro dotted
    obtain ⟨front,same⟩ := List.getLast?_eq_some_iff.mp dotted
    have empty := (all [] (by rw [same]; exact List.mem_of_mem_tail (nil_mem_splitOn 0x2e front))).length.1
    exact absurd empty (by decide)

theorem readHost_canonical {text host : List UInt8} {port : Option (List UInt8)} (read : readHost text = some (host,port)) :
    CanonicalHost host := by
  rcases host_cases text with ⟨inner,rfl,absent⟩ | ⟨address,suffix,rfl,absent⟩ | ⟨named,absent⟩ |
    ⟨front,port,named,rfl,inHost,inPort⟩ | ⟨front,middle,port,named,rfl,inHost,inPort⟩
  · rw [readHost_open absent] at read
    cases read
  · rw [readHost_closed absent] at read
    split at read
    · cases read
    · rename_i literal
      obtain ⟨_,-,same⟩ := Option.map_eq_some_iff.mp read
      cases same
      refine .inr ⟨address.map toAsciiLowercase,rfl,?_,?_⟩
      · rw [Bool.not_eq_true',Bool.not_eq_false] at literal
        exact (isIpv6_lower address).trans literal
      · rw [List.map_map]
        exact List.map_congr_left fun b _ => toAsciiLowercase_idem b
  · rw [readHost_plain named absent] at read
    obtain ⟨name,found,same⟩ := Option.map_eq_some_iff.mp read
    cases same
    exact .inl (namedHost_lower found)
  · rw [readHost_port named inHost inPort] at read
    obtain ⟨name,found,same⟩ := Option.map_eq_some_iff.mp read
    cases same
    exact .inl (namedHost_lower found)
  · rw [readHost_colons named inPort] at read
    cases read

theorem endpoint_canonical {text : List UInt8} {found : Authority} (read : endpoint text = .ok found) :
    CanonicalHost found.host ∧ ∀ port ∈ found.port, 1 ≤ port ∧ port ≤ 65535 := by
  unfold endpoint at read
  cases accepted : readAuthority false text with
  | none =>
    rw [accepted] at read
    cases read
  | some named =>
    rw [accepted] at read
    cases read
    obtain ⟨host,allowed⟩ := Option.filter_eq_some_iff.mp accepted
    refine ⟨readHost_canonical host,fun port member => ?_⟩
    obtain ⟨digits,held,rfl⟩ := Option.map_eq_some_iff.mp member
    rw [held] at allowed
    unfold portAllowed validPort at allowed
    simp only [Bool.and_eq_true,decide_eq_true_eq] at allowed
    exact allowed.2

end Hosts

section Soundness

/-- The port that the scheme of a target stands for. -/
def schemePort (target : NormalizedTarget) : Option Nat :=
  if target.scheme = some (ascii "http") then some 80
  else if target.scheme = some (ascii "https") then some 443
  else none

/-- What a reconciled authority is to its target and its host fields. -/
structure Sound (target : NormalizedTarget) (headers : HeaderBlock) (result : EffectiveAuthority) : Prop where
  single : (hosts headers.fields).length ≤ 1
  required : target.form = .origin ∨ target.form = .asterisk → (hosts headers.fields).length = 1
  host : CanonicalHost result.host
  port : ∀ port ∈ result.port, 1 ≤ port ∧ port ≤ 65535
  explicit : target.form = .absolute → result.port ≠ schemePort target
  fromTarget : ∀ text, target.authority = some text →
    ∃ found, endpoint text = .ok found ∧ result = effective (schemePort target) found
  fromHost : target.authority = none → ∃ value found, hosts headers.fields = [value] ∧ endpoint value = .ok found ∧
    result = effective (schemePort target) found
  same : ∀ text value, target.authority = some text → hosts headers.fields = [value] → ∃ named header,
    endpoint text = .ok named ∧ endpoint value = .ok header ∧ named.host = header.host ∧
      named.port.or (schemePort target) = header.port.or (schemePort target)

theorem reconciled_reference {reconcile : NormalizedTarget → HeaderBlock → Result EffectiveAuthority}
    (registered : reconcile ∈ authorityImplementations) {target : NormalizedTarget} {authority : Option (List UInt8)}
    {fallback : Option Nat} (shape : Shape target authority fallback) {headers : HeaderBlock}
    (canonical : Canonical headers.fields) {result : EffectiveAuthority} (accepted : reconcile target headers = .ok result) :
    reference authority fallback headers.fields = .ok result := by
  simp only [authorityImplementations,List.mem_cons,List.not_mem_nil,or_false] at registered
  rcases registered with rfl | rfl | rfl | rfl | rfl
  · rw [← phases_reference shape headers,accepted]
  · rw [← table_reference shape headers,accepted]
  · by_cases commas : CommaHost headers.fields
    · rw [(comma_differs shape canonical commas).1] at accepted
      cases accepted
    · rw [← composable_reference shape canonical commas,accepted]
  · rw [← segment_reference shape headers,accepted]
  · rw [← algebra_reference shape headers,accepted]

theorem shape_port {target : NormalizedTarget} {authority : Option (List UInt8)} {fallback : Option Nat}
    (shape : Shape target authority fallback) : target.authority = authority ∧ schemePort target = fallback ∧
      (target.form = .absolute → fallback ≠ none) := by
  cases shape with
  | origin path routing => exact ⟨rfl,rfl,fun impossible => by cases impossible⟩
  | asterisk path routing => exact ⟨rfl,rfl,fun impossible => by cases impossible⟩
  | http authority path routing => exact ⟨rfl,rfl,fun _ => Option.some_ne_none 80⟩
  | https authority path routing => exact ⟨rfl,rfl,fun _ => Option.some_ne_none 443⟩
  | authority authority path routing => exact ⟨rfl,rfl,fun impossible => by cases impossible⟩

theorem hostText_hosts {fields : List HeaderField} {host : Option (List UInt8)} (read : hostText fields = .ok host) :
    hosts fields = host.toList := by
  unfold hostText at read
  split at read
  · rename_i none
    cases read
    exact none
  · rename_i value single
    split at read
    · cases read
    · cases read
      exact single
  · cases read

theorem source_endpoint {text : Option (List UInt8)} {found : Option Authority} (read : source text = .ok found) :
    (text = none ∧ found = none) ∨ ∃ value named, text = some value ∧ found = some named ∧ endpoint value = .ok named := by
  cases text with
  | none =>
    cases read
    exact .inl ⟨rfl,rfl⟩
  | some value =>
    rw [source,Option.map_some] at read
    cases named : endpoint value with
    | error error =>
      rw [named] at read
      cases read
    | ok endpoint =>
      rw [named] at read
      cases read
      exact .inr ⟨value,endpoint,rfl,rfl,named⟩

theorem effective_canonical {fallback : Option Nat} {text : List UInt8} {found : Authority} (read : endpoint text = .ok found) :
    CanonicalHost (effective fallback found).host ∧
      (∀ port ∈ (effective fallback found).port, 1 ≤ port ∧ port ≤ 65535) ∧
        (fallback ≠ none → (effective fallback found).port ≠ fallback) := by
  obtain ⟨host,port⟩ := endpoint_canonical read
  refine ⟨host,fun value member => port value (Option.filter_eq_some_iff.mp member).1,fun some same => ?_⟩
  obtain ⟨implied,rfl⟩ := Option.ne_none_iff_exists'.mp some
  have kept := (Option.filter_eq_some_iff.mp same).2
  rw [bne_self_eq_false] at kept
  cases kept

/-- Whatever an implementation returns for the results of the earlier stages is sound. -/
theorem authority_sound (normalize : RequestLine → Result NormalizedTarget) (normalizer : normalize ∈ requestTargetImplementations)
    (request : RequestLine) (target : NormalizedTarget) (normalized : normalize request = .ok target)
    (parse : List UInt8 → Result HeaderBlock) (parser : parse ∈ headerImplementations) (input : List UInt8) (headers : HeaderBlock)
    (parsed : parse input = .ok headers) (reconcile : NormalizedTarget → HeaderBlock → Result EffectiveAuthority)
    (reconciler : reconcile ∈ authorityImplementations) (result : EffectiveAuthority)
    (reconciled : reconcile target headers = .ok result) : Sound target headers result := by
  obtain ⟨authority,fallback,shape⟩ := normalized_shaped normalizer normalized
  have accepted := reconciled_reference reconciler shape (parsed_canonical parser parsed) reconciled
  have needs := shape_host shape
  obtain ⟨rfl,rfl,implied⟩ := shape_port shape
  obtain ⟨host,hostRead,accepted⟩ := bind_success accepted
  obtain ⟨named,namedRead,accepted⟩ := bind_success accepted
  obtain ⟨header,headerRead,accepted⟩ := bind_success accepted
  have listed := hostText_hosts hostRead
  have short : host.toList.length ≤ 1 := by
    cases host with
    | none => exact Nat.zero_le 1
    | some value => exact Nat.le_refl 1
  rcases source_endpoint namedRead with ⟨absent,rfl⟩ | ⟨text,named,present,rfl,namedText⟩
  · rcases source_endpoint headerRead with ⟨rfl,rfl⟩ | ⟨value,header,rfl,rfl,headerText⟩
    · cases accepted
    · cases accepted
      obtain ⟨canonical,range,explicit⟩ := @effective_canonical (schemePort target) _ _ headerText
      rw [Option.toList_some] at listed
      have missing {text : List UInt8} (present : target.authority = some text) : False := by
        rw [absent] at present
        cases present
      exact ⟨by rw [listed]; exact Nat.le_refl _,fun _ => by rw [listed]; rfl,canonical,range,
        fun absolute => explicit (implied absolute),fun _ present => (missing present).elim,
        fun _ => ⟨value,header,listed,headerText,rfl⟩,fun _ _ present => (missing present).elim⟩
  · have unforced {statement : Prop} (form : target.form = .origin ∨ target.form = .asterisk) : statement := by
      rw [needs.mp form] at present
      cases present
    have chosen : result = effective (schemePort target) named ∧ ∀ value, host = some value → ∃ header,
        endpoint value = .ok header ∧ named.host = header.host ∧
          named.port.or (schemePort target) = header.port.or (schemePort target) := by
      rcases source_endpoint headerRead with ⟨rfl,rfl⟩ | ⟨value,header,rfl,rfl,headerText⟩
      · cases accepted
        exact ⟨rfl,fun _ impossible => by cases impossible⟩
      · unfold merge at accepted
        dsimp only at accepted
        split at accepted
        · rename_i agrees
          cases accepted
          rw [Bool.and_eq_true,beq_iff_eq,beq_iff_eq] at agrees
          exact ⟨rfl,fun _ same => by cases same; exact ⟨header,headerText,agrees.1,agrees.2⟩⟩
        · cases accepted
    obtain ⟨rfl,agrees⟩ := chosen
    obtain ⟨canonical,range,explicit⟩ := @effective_canonical (schemePort target) _ _ namedText
    have read {other : List UInt8} (found : target.authority = some other) : endpoint other = .ok named := by
      rw [present] at found
      cases found
      exact namedText
    refine ⟨by rw [listed]; exact short,unforced,canonical,range,fun absolute => explicit (implied absolute),
      fun other found => ⟨named,read found,rfl⟩,fun absent => ?_,fun other value found single => ?_⟩
    · rw [present] at absent
      cases absent
    · have held : host = some value := by
        rw [listed] at single
        exact Option.toList_eq_singleton_iff.mp single
      obtain ⟨header,headerText,sameHost,samePort⟩ := agrees value held
      exact ⟨named,header,read found,headerText,sameHost,samePort⟩

/-- An absolute target and a host that name the same server, one of them with its port. -/
theorem authority_sound_absolute :
    RequestTargetRules.normalizeRequestTarget ⟨ascii "get",ascii "http://Example.Test:80/",.http11,0⟩ =
        .ok ⟨.absolute,some (ascii "http"),some (ascii "example.test:80"),ascii "/",ascii "/"⟩ ∧
      HeaderTypedCursor.parseHeaderSection (ascii "Host: EXAMPLE.test.\r\n\r\n") =
        .ok ⟨[⟨ascii "host",ascii "EXAMPLE.test."⟩],23⟩ ∧
      Sound ⟨.absolute,some (ascii "http"),some (ascii "example.test:80"),ascii "/",ascii "/"⟩
        ⟨[⟨ascii "host",ascii "EXAMPLE.test."⟩],23⟩ ⟨ascii "example.test",none⟩ := by
  have normalized : RequestTargetRules.normalizeRequestTarget ⟨ascii "get",ascii "http://Example.Test:80/",.http11,0⟩ =
      .ok ⟨.absolute,some (ascii "http"),some (ascii "example.test:80"),ascii "/",ascii "/"⟩ := by decide +kernel
  have parsed : HeaderTypedCursor.parseHeaderSection (ascii "Host: EXAMPLE.test.\r\n\r\n") =
      .ok ⟨[⟨ascii "host",ascii "EXAMPLE.test."⟩],23⟩ := by decide +kernel
  exact ⟨normalized,parsed,authority_sound RequestTargetRules.normalizeRequestTarget (by simp [requestTargetImplementations]) _ _
    normalized HeaderTypedCursor.parseHeaderSection (by simp [headerImplementations]) _ _ parsed
    AuthorityPhases.reconcileAuthority (by simp [authorityImplementations]) _ (by decide +kernel)⟩

end Soundness

end Polyguard.AuthorityAgreement
