import Polyguard.CanonicalHead.Clean
import Polyguard.RequestLine.Agreement
import Polyguard.BodyFraming.Agreement
import Polyguard.Authority.Rendered

/-! The parsers read a canonical head back.
Each field of a head is a line of the header grammar, so that the parsers find the fields
that were written, whatever follows the head. The framing and the authority that are read
in them are those that the head was built for. -/
namespace Polyguard.CanonicalHead
open Ascii Slices Decimal Address TargetBytes RequestTarget HeaderFraming HeaderAgreement

section Legible

/-- A field whose line the header grammar accepts. -/
structure Legible (field : HeaderField) : Prop where
  named : field.name ≠ [] ∧ field.name.length ≤ headerNameBytes ∧ ∀ b ∈ field.name, isTchar b
  valued : field.value.length ≤ headerValueBytes ∧ ∀ b ∈ field.value, isValueByte b
  edged : (∀ b ∈ field.value.head?, isBlank b = false) ∧ ∀ b ∈ field.value.getLast?, isBlank b = false

/-- The line of such a field, with one blank in front of its value. -/
def Legible.line {field : HeaderField} (legible : Legible field) : FieldLine where
  name := field.name
  lead := [0x20]
  value := field.value
  trail := []
  named := legible.named
  blank := ⟨by simp [isBlank],by simp⟩
  valued := legible.valued
  edged := legible.edged

/-- The field as the parsers return it. -/
def asRead (field : HeaderField) : HeaderField := ⟨field.name.map toAsciiLowercase,field.value⟩

theorem Legible.line_bytes {field : HeaderField} (legible : Legible field) : legible.line.bytes = fieldLine field := by
  simp [FieldLine.bytes,FieldLine.raw,Legible.line,fieldLine]

theorem Legible.line_field {field : HeaderField} (legible : Legible field) : legible.line.field = asRead field := rfl

theorem legible_lines {fields : List HeaderField} (legible : ∀ field ∈ fields, Legible field) :
    ∃ lines : List FieldLine, lines.map FieldLine.bytes = fields.map fieldLine ∧ lines.map FieldLine.field = fields.map asRead := by
  induction fields with
  | nil => exact ⟨[],rfl,rfl⟩
  | cons field fields ih =>
    obtain ⟨first,others⟩ := List.forall_mem_cons.mp legible
    obtain ⟨lines,bytes,read⟩ := ih others
    refine ⟨first.line :: lines,?_,?_⟩
    · rw [List.map_cons,List.map_cons,first.line_bytes,bytes]
    · rw [List.map_cons,List.map_cons,first.line_field,read]

theorem legible_section {fields : List HeaderField} (legible : ∀ field ∈ fields, Legible field) (few : fields.length ≤ headerFields)
    (short : (wire (fields.map fieldLine)).length + 2 ≤ headerSectionBytes) (rest : List UInt8) :
    Accepted (wire (fields.map fieldLine) ++ 0x0d :: 0x0a :: rest)
      ⟨fields.map asRead,(wire (fields.map fieldLine)).length + 2⟩ := by
  obtain ⟨lines,bytes,read⟩ := legible_lines legible
  have count := congrArg List.length bytes
  rw [List.length_map,List.length_map] at count
  exact ⟨lines,rest,by rw [bytes],by omega,by rw [bytes],short,read.symm⟩

end Legible
section Fields

/-- What a judge accepts as a list is a short text with no blank at its edges. -/
structure Tidy (judge : Judge) : Prop where
  list : ∀ {value}, judge.list value → value.length ≤ forwardingLimit ∧ hasBlankEdge value = false
  target : ∀ {target endpoint}, judge.target target endpoint = .ok () → target.pathAndQuery ≠ []

theorem plain_tidy : Tidy plainJudge where
  list := by
    intro value accepted
    change validForwardingValue value = true at accepted
    simp only [validForwardingValue,Bool.and_eq_true,decide_eq_true_eq,Bool.not_eq_true'] at accepted
    obtain ⟨⟨⟨⟨⟨-,short⟩,printable⟩,first⟩,last⟩,-⟩ := accepted
    refine ⟨short,?_⟩
    have printed := List.all_eq_true.mp printable
    have blank := forall_byte (p := fun b => (0x20 ≤ b && b ≤ 0x7e) → isOws b = (b == 0x20)) (by decide)
    unfold hasBlankEdge
    rw [Bool.or_eq_false_iff]
    constructor
    · cases front : value.head? with
      | none => rfl
      | some byte =>
        rw [startsWith,front] at first
        rw [Option.any_some,blank byte (printed byte (List.mem_of_mem_head? front))]
        simpa using first
    · cases back : value.getLast? with
      | none => rfl
      | some byte =>
        rw [endsWith,back] at last
        rw [Option.any_some,blank byte (printed byte (List.mem_of_mem_getLast? back))]
        simpa using last
  target := by
    intro target endpoint accepted
    obtain ⟨_,-,accepted⟩ := bind_success accepted
    unfold validatePath at accepted
    split at accepted
    · cases accepted
    · rename_i clean
      simp only [Bool.or_eq_true,not_or,List.isEmpty_iff] at clean
      exact clean.1.1.1

theorem quoted_tidy : Tidy quotedJudge where
  list := by
    intro value accepted
    change CanonicalHeadDualSink.validForwardingValue value = true at accepted
    unfold CanonicalHeadDualSink.validForwardingValue at accepted
    split at accepted
    · cases accepted
    · rename_i clean
      simp only [Bool.or_eq_true,not_or,Bool.not_eq_true,decide_eq_false_iff_not,not_lt] at clean
      exact ⟨clean.1.1.2,clean.2⟩
  target := by
    intro target endpoint accepted
    obtain ⟨_,-,accepted⟩ := bind_success accepted
    dsimp only at accepted
    split at accepted
    · cases accepted
    · rename_i clean
      simp only [Bool.or_eq_true,not_or,List.isEmpty_iff] at clean
      exact clean.1.1

theorem implementations_tidy {construct} (registered : construct ∈ canonicalHeadImplementations) :
    ∃ judge, Careful judge ∧ Tidy judge ∧ construct = CanonicalHead.construct judge := by
  rcases implementations_judge construct registered with same | same
  · exact ⟨plainJudge,plain_careful,plain_tidy,same⟩
  · exact ⟨quotedJudge,quoted_careful,quoted_tidy,same⟩

theorem unedged {value : List UInt8} (plain : hasBlankEdge value = false) :
    (∀ b ∈ value.head?, isBlank b = false) ∧ ∀ b ∈ value.getLast?, isBlank b = false := by
  unfold hasBlankEdge at plain
  rw [Bool.or_eq_false_iff] at plain
  constructor
  · intro b member
    have front := plain.1
    rw [Option.mem_def.mp member] at front
    exact front
  · intro b member
    have back := plain.2
    rw [Option.mem_def.mp member] at back
    exact back

theorem isEndToEnd_legible {field : HeaderField} (clean : isEndToEnd field) : Legible field := by
  have line := isEndToEnd_line clean
  simp only [isEndToEnd,isCanonicalName,Bool.and_eq_true,Bool.not_eq_true',decide_eq_true_eq,List.isEmpty_eq_false_iff] at clean
  exact ⟨⟨clean.1.1.1.1.1.1,clean.1.1.1.1.1.2,line.named⟩,⟨clean.1.1.1.2,line.valued⟩,unedged clean.1.2⟩

theorem blankless_edge {value : List UInt8} (plain : ∀ b ∈ value, isBlank b = false) :
    (∀ b ∈ value.head?, isBlank b = false) ∧ ∀ b ∈ value.getLast?, isBlank b = false :=
  ⟨fun b member => plain b (List.mem_of_mem_head? member),fun b member => plain b (List.mem_of_mem_getLast? member)⟩

theorem renderEndpoint_string {authority : EffectiveAuthority} (canonical : AuthorityAgreement.CanonicalHost authority.host) {host : Host}
    (hosted : effectiveHost checkDns authority = .ok host) : renderEndpoint ⟨host,authority.port⟩ = Proxy.authorityString authority := by
  have same : renderHost host = authority.host := by
    unfold effectiveHost at hosted
    split at hosted
    · cases hosted
    · rcases canonical with lower | ⟨address,literal,-,-⟩
      · have plain := lower.unbracketed []
        rw [List.append_nil] at plain
        have unbracketed : bracketed authority.host = none := by
          rw [bracketed,plain]
          rfl
        have colonless : authority.host.contains 0x3a = false := by
          rw [Bool.eq_false_iff,ne_eq,List.contains_iff_mem]
          exact lower.absent (by decide)
        rw [unbracketed,colonless] at hosted
        obtain ⟨_,-,hosted⟩ := bind_success hosted
        cases hosted
        rfl
      · have inner : bracketed authority.host = some address := by
          rw [literal]
          simp [bracketed,startsWith,stripSuffix]
        rw [inner] at hosted
        obtain ⟨_,-,hosted⟩ := bind_success hosted
        cases hosted
        exact literal.symm
  unfold renderEndpoint Proxy.authorityString
  cases authority.port with
  | none => exact same
  | some port =>
    rw [same]
    simp [show ascii ":" = [0x3a] from by decide]

theorem written_names : ∀ name ∈ forwardingNames ++ [ascii "Host",ascii "Content-Length",ascii "Transfer-Encoding",ascii "Connection"],
    name ≠ [] ∧ name.length ≤ headerNameBytes := by
  decide

theorem written_named {name : List UInt8} (listed : name ∈ forwardingNames ++ [ascii "Host",ascii "Content-Length",
      ascii "Transfer-Encoding",ascii "Connection"]) : name ≠ [] ∧ name.length ≤ headerNameBytes ∧ ∀ b ∈ name, isTchar b :=
  ⟨(written_names name listed).1,(written_names name listed).2,List.all_eq_true.mp (written_texts.1 name listed)⟩

theorem rendered_legible {text : List UInt8} (rendered : AuthorityAgreement.Rendered text) : Legible ⟨ascii "Host",text⟩ := by
  have plain := forall_byte (p := fun b => isAuthorityByte b → isValueByte b ∧ isBlank b = false) (by decide)
  have short := rendered.short
  exact ⟨written_named (by simp),⟨short.trans (by decide),fun b member => (plain b (rendered.inside b member)).1⟩,
    blankless_edge fun b member => (plain b (rendered.inside b member)).2⟩

theorem written_legible {name value : List UInt8} (listed : name ∈ forwardingNames ++ [ascii "Host",ascii "Content-Length",
      ascii "Transfer-Encoding",ascii "Connection"]) (short : value.length ≤ headerValueBytes) (line : ∀ b ∈ value, isValueByte b)
    (plain : hasBlankEdge value = false) : Legible ⟨name,value⟩ :=
  ⟨written_named listed,⟨short,line⟩,unedged plain⟩

theorem decimal_legible {length : Nat} (bounded : length ≤ bodyLimit) : Legible ⟨ascii "Content-Length",decimal length⟩ := by
  have plain := forall_byte (p := fun b => isAsciiDigit b → isValueByte b ∧ isBlank b = false) (by decide)
  have short : (decimal length).length ≤ 8 := by
    rw [decimal,List.length_map]
    apply (Nat.length_toDigits_le_iff (by decide) (by decide)).mpr
    exact Nat.lt_of_le_of_lt bounded (by decide)
  exact ⟨written_named (by simp),
    ⟨short.trans (by decide),fun b member => (plain b (decimal_digits length b member)).1⟩,
    blankless_edge fun b member => (plain b (decimal_digits length b member)).2⟩

theorem headFields_legible {judge : Judge} (careful : Careful judge) (tidy : Tidy judge) {authority : EffectiveAuthority}
    {headers : SanitizedHeaders} {framing : BodyFraming} {forwarding : ForwardingResult} {host : Host}
    (canonical : AuthorityAgreement.CanonicalHost authority.host) (range : ∀ port ∈ authority.port, 1 ≤ port ∧ port ≤ 65535)
    (hosted : effectiveHost checkDns authority = .ok host) (clean : isSanitized headers) (framed : isFramed framing)
    (listed : (forwardingValues forwarding).all judge.list) :
    ∀ field ∈ headFields ⟨host,authority.port⟩ headers framing forwarding, Legible field := by
  simp only [isSanitized,Bool.and_eq_true] at clean
  intro field member
  rcases List.mem_cons.mp member with rfl | member
  · rw [renderEndpoint_string canonical hosted]
    exact rendered_legible (AuthorityAgreement.rendered_text canonical range)
  · rcases List.mem_append.mp member with kept | member
    · exact isEndToEnd_legible (List.all_eq_true.mp clean.1.2 field (List.mem_of_mem_filter kept))
    · rcases List.mem_append.mp member with forwarded | member
      · obtain ⟨⟨name,value⟩,zipped,rfl⟩ := List.mem_map.mp forwarded
        obtain ⟨named,valued⟩ := List.of_mem_zip zipped
        have accepted := List.all_eq_true.mp listed value valued
        obtain ⟨short,plain⟩ := tidy.list accepted
        exact written_legible (List.mem_append_left _ named) (short.trans (by decide)) (careful.list accepted) plain
      · rcases List.mem_append.mp member with framed' | closing
        · cases framing with
          | none => cases framed'
          | contentLength length =>
            obtain rfl := List.mem_singleton.mp framed'
            exact decimal_legible (decide_eq_true_iff.mp framed)
          | chunked =>
            obtain rfl := List.mem_singleton.mp framed'
            exact written_legible (by simp) (by decide) (List.all_eq_true.mp (by decide)) (by decide)
        · obtain rfl := List.mem_singleton.mp closing
          exact written_legible (by simp) (by decide) (List.all_eq_true.mp (by decide)) (by decide)

end Fields

section Received

/-- The names of the forwarding fields as they are read. -/
def receivedNames : List (List UInt8) :=
  [ascii "forwarded",ascii "x-forwarded-for",ascii "x-forwarded-proto",ascii "x-forwarded-host"]

def receivedFraming : BodyFraming → List HeaderField
  | .none => []
  | .contentLength length => [⟨ascii "content-length",decimal length⟩]
  | .chunked => [⟨ascii "transfer-encoding",ascii "chunked"⟩]

/-- The fields that are read in a head: the host, what is left of the client's fields in its order, the forwarding
fields, the framing and the end of the connection. -/
def receivedFields (authority : EffectiveAuthority) (headers : SanitizedHeaders) (framing : BodyFraming)
    (forwarding : ForwardingResult) : List HeaderField :=
  ⟨ascii "host",Proxy.authorityString authority⟩ :: (keptFields headers ++
    ((receivedNames.zip (forwardingValues forwarding)).map (fun entry => ⟨entry.1,entry.2⟩) ++
      (receivedFraming framing ++ [⟨ascii "connection",ascii "close"⟩])))

theorem isEndToEnd_read {field : HeaderField} (clean : isEndToEnd field) : asRead field = field := by
  have lower := forall_byte (p := fun b => isLowerToken b → toAsciiLowercase b = b) (by decide)
  simp only [isEndToEnd,isCanonicalName,Bool.and_eq_true] at clean
  have same : field.name.map toAsciiLowercase = field.name := by
    rw [List.map_congr_left fun b member => lower b (List.all_eq_true.mp clean.1.1.1.1.2 b member),List.map_id'']
    exact fun _ => rfl
  rw [asRead,same]

theorem headFields_read {authority : EffectiveAuthority} {headers : SanitizedHeaders} {framing : BodyFraming}
    {forwarding : ForwardingResult} {host : Host} (canonical : AuthorityAgreement.CanonicalHost authority.host)
    (hosted : effectiveHost checkDns authority = .ok host) (clean : isSanitized headers) :
    (headFields ⟨host,authority.port⟩ headers framing forwarding).map asRead =
      receivedFields authority headers framing forwarding := by
  simp only [isSanitized,Bool.and_eq_true] at clean
  have kept : (keptFields headers).map asRead = keptFields headers := by
    rw [List.map_congr_left (g := id),List.map_id]
    intro field member
    exact isEndToEnd_read (List.all_eq_true.mp clean.1.2 field (List.mem_of_mem_filter member))
  have framed : (framingFields framing).map asRead = receivedFraming framing := by
    cases framing <;> rfl
  have forwarded : (forwardingFields forwarding).map asRead =
      (receivedNames.zip (forwardingValues forwarding)).map fun entry => ⟨entry.1,entry.2⟩ := rfl
  unfold headFields receivedFields
  rw [List.map_cons,List.map_append,List.map_append,List.map_append,kept,framed,forwarded,← renderEndpoint_string canonical hosted]
  rfl

theorem keptFields_apart {headers : SanitizedHeaders} {name : List UInt8} (replaced : isReplaced name) :
    (keptFields headers).filter (·.name == name) = [] := by
  rw [List.filter_eq_nil_iff]
  intro field member same
  have kept := (List.mem_filter.mp member).2
  rw [beq_iff_eq.mp same,replaced] at kept
  cases kept

theorem received_named (authority : EffectiveAuthority) (headers : SanitizedHeaders) (framing : BodyFraming)
    (forwarding : ForwardingResult) {name : List UInt8}
    (listed : name ∈ [ascii "host",ascii "content-length",ascii "transfer-encoding"]) :
    (receivedFields authority headers framing forwarding).filter (·.name == name) =
      (if ascii "host" == name then [⟨ascii "host",Proxy.authorityString authority⟩] else []) ++
        (receivedFraming framing).filter (·.name == name) := by
  have facts : isReplaced name ∧ (receivedNames ++ [ascii "connection"]).all (· != name) := by
    revert listed
    revert name
    decide
  have forwarded : ((receivedNames.zip (forwardingValues forwarding)).map
      (fun entry => (⟨entry.1,entry.2⟩ : HeaderField))).filter (·.name == name) = [] := by
    rw [List.filter_eq_nil_iff]
    intro field member same
    obtain ⟨⟨other,value⟩,zipped,rfl⟩ := List.mem_map.mp member
    have apart := List.all_eq_true.mp facts.2 other (List.mem_append_left _ (List.of_mem_zip zipped).1)
    exact bne_iff_ne.mp apart (beq_iff_eq.mp same)
  have closing : ([⟨ascii "connection",ascii "close"⟩] : List HeaderField).filter (·.name == name) = [] := by
    rw [List.filter_eq_nil_iff]
    intro field member same
    rw [List.mem_singleton.mp member] at same
    exact bne_iff_ne.mp (List.all_eq_true.mp facts.2 _ (by simp)) (beq_iff_eq.mp same)
  unfold receivedFields
  rw [List.filter_cons,List.filter_append,List.filter_append,List.filter_append,keptFields_apart facts.1,forwarded,closing]
  split <;> simp

/-- The framing that is read where this one was written. -/
def readFraming : BodyFraming → BodyFraming
  | .contentLength length => BodyFramingAgreement.framingOfLength length
  | framing => framing

theorem trim_clean {p : UInt8 → Bool} {text : List UInt8} (clean : ∀ b ∈ text, p b = false) : trim p text = text := by
  have front : text.dropWhile p = text := by
    cases text with
    | nil => rfl
    | cons byte rest => rw [List.dropWhile_cons,clean byte List.mem_cons_self,if_neg Bool.false_ne_true]
  unfold trim
  rw [front,List.rdropWhile_eq_self_iff]
  intro some last
  rw [clean _ (List.getLast_mem some)] at last
  cases last

theorem decimal_denotes (length : Nat) : BodyFramingAgreement.Denotes (trim isOws (decimal length)) length := by
  have blank := forall_byte (p := fun b => isAsciiDigit b → isOws b = false) (by decide)
  have same : (fun value digit => value * 10 + (digit - 0x30 : UInt8).toNat) = Decimal.pushDigit := by
    funext value digit
    rw [Decimal.pushDigit,Nat.mul_comm]
  rw [trim_clean fun b member => blank b (decimal_digits length b member)]
  refine ⟨decimal_ne_nil length,decimal_digits length,?_⟩
  unfold BodyFramingAgreement.decimal
  rw [same]
  exact digitsValue_decimal length

theorem received_framing (authority : EffectiveAuthority) (headers : SanitizedHeaders) {framing : BodyFraming}
    (framed : isFramed framing) (forwarding : ForwardingResult) (consumed : Nat) {determine : HeaderBlock → Result BodyFraming}
    (registered : determine ∈ bodyFramingImplementations) :
    determine ⟨receivedFields authority headers framing forwarding,consumed⟩ = .ok (readFraming framing) := by
  rw [BodyFramingAgreement.refines_reference determine registered]
  have lengths := @received_named authority headers framing forwarding (ascii "content-length") (by simp)
  have codings := @received_named authority headers framing forwarding (ascii "transfer-encoding") (by simp)
  unfold BodyFramingAgreement.reference BodyFramingAgreement.present BodyFramingAgreement.lengthFraming
    BodyFramingAgreement.codingFraming BodyFramingAgreement.rawMembers BodyFramingAgreement.named contentLengthName transferEncodingName
  dsimp only
  rw [lengths,codings]
  cases framing with
  | none => rfl
  | chunked => rfl
  | contentLength length =>
    have lone : (decimal length).splitOn 0x2c = [decimal length] :=
      List.splitOn_eq_singleton fun member => absurd (decimal_digits length 0x2c member) (by decide)
    have accepted : BodyFramingAgreement.acceptMember none (decimal length) = .ok (some length) :=
      (BodyFramingAgreement.acceptMember_ok _ _ _).mpr ⟨length,rfl,decimal_denotes length,decide_eq_true_iff.mp framed,by simp⟩
    change ((((decimal length).splitOn 0x2c) ++ []).foldlM BodyFramingAgreement.acceptMember none >>= _) = _
    rw [lone,List.append_nil,List.foldlM_cons,accepted]
    rfl

end Received

section Authorities
open AuthorityAgreement

theorem lowerName_lower {name : List UInt8} (lower : LowerName name) : name.map toAsciiLowercase = name := by
  have fixed := forall_byte (p := fun b => isAsciiLowercase b ∨ isAsciiDigit b ∨ b = 0x2d → toAsciiLowercase b = b) (by decide)
  have inside : ∀ b ∈ name, toAsciiLowercase b = b := by
    intro b member
    rcases splitOn_mem 0x2e member with rfl | ⟨label,among,within⟩
    · rfl
    · exact fixed b ((lower.labels label among).bytes b within)
  exact (List.map_congr_left inside).trans (List.map_id name)

theorem lowerName_named {name : List UInt8} (lower : LowerName name) : named name = .ok name := by
  have some : name.isEmpty = false := List.isEmpty_eq_false_iff.mpr lower.some
  unfold named RequestTarget.namedHost
  rw [lower.withoutDot]
  dsimp only [Option.getD_none]
  rw [some,lower.all_valid,decide_eq_false (Nat.not_lt.mpr lower.length),lowerName_lower lower]
  rfl

theorem portValue_decimal {port : Nat} (range : 1 ≤ port ∧ port ≤ 65535) : portValue (decimal port) = .ok port := by
  have valid : validPort (decimal port) = true := by
    unfold validPort
    rw [List.isEmpty_eq_false_iff.mpr (decimal_ne_nil port),List.all_eq_true.mpr (decimal_digits port),digitsValue_decimal]
    simp [u16Max,range]
  unfold portValue
  rw [if_pos valid,digitsValue_decimal]

theorem endpoint_string {authority : EffectiveAuthority} (canonical : CanonicalHost authority.host)
    (range : ∀ port ∈ authority.port, 1 ≤ port ∧ port ≤ 65535) :
    endpoint (Proxy.authorityString authority) = .ok ⟨authority.host,authority.port⟩ := by
  obtain ⟨host,port⟩ := authority
  have colon : ascii ":" = [0x3a] := by decide
  unfold Proxy.authorityString
  rcases canonical with lower | ⟨address,literal,accepted,lowered⟩
  · have absent : (0x3a : UInt8) ∉ host := lower.absent (by decide)
    cases port with
    | none =>
      have plain := lower.unbracketed []
      rw [List.append_nil] at plain
      dsimp only at plain absent ⊢
      rw [endpoint_plain plain absent,lowerName_named lower]
      rfl
    | some port =>
      dsimp only
      rw [colon,List.append_assoc,List.singleton_append,
        endpoint_port (lower.unbracketed _) absent (decimal_colonless port),lowerName_named lower,portValue_decimal (range port rfl)]
      rfl
  · dsimp only at literal
    subst literal
    have absent : (0x5d : UInt8) ∉ address := literal_absent accepted (by decide)
    cases port with
    | none =>
      have closed := endpoint_closed absent []
      rw [accepted,lowered] at closed
      exact closed
    | some port =>
      have closed := endpoint_closed absent (0x3a :: decimal port)
      rw [accepted,lowered] at closed
      have suffix : suffixValue (0x3a :: decimal port) = .ok (some port) := by
        change (portValue (decimal port)).map some = _
        rw [portValue_decimal (range port rfl)]
        rfl
      rw [suffix] at closed
      dsimp only
      rw [colon,show 0x5b :: (address ++ [0x5d]) ++ [0x3a] ++ decimal port = 0x5b :: (address ++ 0x5d :: 0x3a :: decimal port) by simp]
      exact closed

theorem asRead_canonical (fields : List HeaderField) : Canonical (fields.map asRead) := by
  have settled := forall_byte (p := fun b => toAsciiLowercase (toAsciiLowercase b) = toAsciiLowercase b) (by decide)
  intro field member
  obtain ⟨written,-,rfl⟩ := List.mem_map.mp member
  exact (List.map_map ..).trans (List.map_congr_left fun b _ => settled b)

theorem reconcile_reference {reconcile : NormalizedTarget → HeaderBlock → Result EffectiveAuthority}
    (registered : reconcile ∈ authorityImplementations) {target : NormalizedTarget} {authority : Option (List UInt8)}
    {fallback : Option Nat} (shape : Shape target authority fallback) {headers : HeaderBlock} (canonical : Canonical headers.fields)
    (other : ¬ CommaHost headers.fields) : reconcile target headers = reference authority fallback headers.fields := by
  simp only [authorityImplementations,List.mem_cons,List.not_mem_nil,or_false] at registered
  rcases registered with rfl | rfl | rfl | rfl | rfl
  · exact phases_reference shape headers
  · exact table_reference shape headers
  · exact composable_reference shape canonical other
  · exact segment_reference shape headers
  · exact algebra_reference shape headers

theorem effective_none (found : Authority) : effective none found = ⟨found.host,found.port⟩ := by
  obtain ⟨host,port⟩ := found
  cases port <;> rfl

theorem received_authority {authority : EffectiveAuthority} (canonical : CanonicalHost authority.host)
    (range : ∀ port ∈ authority.port, 1 ≤ port ∧ port ≤ 65535) {host : Host} (hosted : effectiveHost checkDns authority = .ok host)
    {headers : SanitizedHeaders} (clean : isSanitized headers) (framing : BodyFraming) (forwarding : ForwardingResult)
    (consumed : Nat) (path routing : List UInt8) {reconcile : NormalizedTarget → HeaderBlock → Result EffectiveAuthority}
    (registered : reconcile ∈ authorityImplementations) :
    reconcile ⟨.origin,none,none,path,routing⟩ ⟨receivedFields authority headers framing forwarding,consumed⟩ = .ok authority := by
  have rendered := rendered_text canonical range
  have comma : (0x2c : UInt8) ∉ Proxy.authorityString authority := fun member => absurd (rendered.inside 0x2c member) (by decide)
  have listed : hosts (receivedFields authority headers framing forwarding) = [Proxy.authorityString authority] := by
    have lone := @received_named authority headers framing forwarding (ascii "host") (by simp)
    unfold hosts
    rw [lone]
    cases framing <;> rfl
  have lower : Canonical (receivedFields authority headers framing forwarding) := by
    rw [← headFields_read canonical hosted clean]
    exact asRead_canonical _
  have other : ¬ CommaHost (receivedFields authority headers framing forwarding) := by
    rintro ⟨value,found,some,commas⟩
    rw [listed] at found
    obtain rfl := List.singleton_inj.mp found
    obtain ⟨byte,rest,same⟩ := List.exists_cons_of_ne_nil some
    rw [same] at commas comma
    exact comma (commas byte List.mem_cons_self ▸ List.mem_cons_self)
  rw [reconcile_reference registered (.origin path routing) lower other]
  have text : (Proxy.authorityString authority).contains 0x2c = false := by
    rw [Bool.eq_false_iff,ne_eq,List.contains_iff_mem]
    exact comma
  unfold reference hostText
  dsimp only
  rw [listed]
  dsimp only
  have named : source (some (Proxy.authorityString authority)) = .ok (some ⟨authority.host,authority.port⟩) := by
    rw [source,Option.map_some,endpoint_string canonical range]
    rfl
  have nothing : source none = .ok none := rfl
  rw [text,if_neg Bool.false_ne_true,bind_ok,nothing,bind_ok,named,bind_ok]
  exact congrArg Except.ok (effective_none _)

end Authorities

section RoundTrip
open AuthorityAgreement

/-- The limits of the parsers that a head may exceed. -/
structure WithinLimits (method path : List UInt8) (head : CanonicalRequestHead) (fields : List HeaderField) : Prop where
  line : (requestLine method path).length ≤ 8192
  few : fields.length ≤ headerFields
  short : head.bytes.length - ((requestLine method path).length + 2) ≤ headerSectionBytes

/-- What any parsers find in a text that begins with a head. -/
structure ReadsBack (method path : List UInt8) (authority : EffectiveAuthority) (headers : SanitizedHeaders) (framing : BodyFraming)
    (forwarding : ForwardingResult) (head : CanonicalRequestHead) (rest : List UInt8) : Prop where
  line : ∀ parse ∈ requestLineImplementations,
    parse (head.bytes ++ rest) = .ok ⟨method,path,.http11,(requestLine method path).length + 2⟩
  fields : ∀ parse ∈ headerImplementations, parse ((head.bytes ++ rest).drop ((requestLine method path).length + 2)) =
    .ok ⟨receivedFields authority headers framing forwarding,head.bytes.length - ((requestLine method path).length + 2)⟩
  whole : (requestLine method path).length + 2 ≤ head.bytes.length
  framed : ∀ determine ∈ bodyFramingImplementations, ∀ consumed,
    determine ⟨receivedFields authority headers framing forwarding,consumed⟩ = .ok (readFraming framing)
  reconciled : ∀ reconcile ∈ authorityImplementations, ∀ routing consumed,
    reconcile ⟨.origin,none,none,path,routing⟩ ⟨receivedFields authority headers framing forwarding,consumed⟩ = .ok authority

theorem requestLine_accepted {method path : List UInt8} (tokens : isMethod method) (visible : ∀ b ∈ path, isTargetByte b)
    (some : path ≠ []) (short : (requestLine method path).length ≤ 8192) (rest : List UInt8) :
    RequestLineAgreement.Accepted (requestLine method path ++ 0x0d :: 0x0a :: rest)
      ⟨method,path,.http11,(requestLine method path).length + 2⟩ := by
  have version : ascii " HTTP/1.1" = 0x20 :: ascii "HTTP/1.1" := by decide
  have token := forall_byte (p := fun b => isLowerToken b → RequestLineDirect.isTokenByte (toAsciiUppercase b) ∧
    toAsciiLowercase (toAsciiUppercase b) = b) (by decide)
  have shown := forall_byte (p := fun b => isTargetByte b → isAsciiGraphic b ∧ b ≠ 0x23) (by decide)
  simp only [isMethod,Bool.and_eq_true,Bool.not_eq_true',List.isEmpty_eq_false_iff,decide_eq_true_eq] at tokens
  have lower := List.all_eq_true.mp tokens.2
  refine ⟨method.map toAsciiUppercase,path,rest,?_,?_,?_,?_,some,fun b member => shown b (visible b member),?_,?_⟩
  · simp [requestLine,version]
  · rw [List.length_map]
    exact List.length_pos_iff.mpr tokens.1.1
  · rw [List.length_map]
    exact tokens.1.2
  · intro b member
    obtain ⟨c,inside,rfl⟩ := List.mem_map.mp member
    exact (token c (lower c inside)).1
  · rw [requestLine,version] at short
    exact short
  · rw [requestLine,version,List.map_map]
    have same : method.map (toAsciiLowercase ∘ toAsciiUppercase) = method :=
      (List.map_congr_left fun b member => (token b (lower b member)).2).trans (List.map_id method)
    rw [same]

theorem wireHead_split (request rest : List UInt8) (fields : List HeaderField) :
    wireHead request fields ++ rest = request ++ 0x0d :: 0x0a :: (wire (fields.map fieldLine) ++ 0x0d :: 0x0a :: rest) := by
  simp [wireHead,wire_cons]

/-- Whatever follows a head, the parsers find in it what it was built from. -/
theorem head_reads_back {construct} (registered : construct ∈ canonicalHeadImplementations) {method : List UInt8}
    {target : NormalizedTarget} {authority : EffectiveAuthority} {headers : SanitizedHeaders} {framing : BodyFraming}
    {forwarding : ForwardingResult} {head : CanonicalRequestHead} (canonical : CanonicalHost authority.host)
    (range : ∀ port ∈ authority.port, 1 ≤ port ∧ port ≤ 65535)
    (returned : construct method target authority headers framing forwarding = .ok head)
    (fits : WithinLimits method target.pathAndQuery head (receivedFields authority headers framing forwarding)) (rest : List UInt8) :
    ReadsBack method target.pathAndQuery authority headers framing forwarding head rest := by
  obtain ⟨judge,careful,tidy,rfl⟩ := implementations_tidy registered
  obtain ⟨_,tokens,returned⟩ := bind_success returned
  obtain ⟨host,hosted,returned⟩ := bind_success returned
  obtain ⟨_,accepted,returned⟩ := bind_success returned
  obtain ⟨_,clean,returned⟩ := bind_success returned
  obtain ⟨_,framed,returned⟩ := bind_success returned
  obtain ⟨_,listed,returned⟩ := bind_success returned
  unfold boundedHead at returned
  split at returned
  · cases returned
  · cases returned
    have legible := headFields_legible careful tidy canonical range hosted (ensure_ok clean) (ensure_ok framed) (ensure_ok listed)
    have received := @headFields_read authority headers framing forwarding host canonical hosted (ensure_ok clean)
    have split := wireHead_split (requestLine method target.pathAndQuery) rest (headFields ⟨host,authority.port⟩ headers framing forwarding)
    have size : (wireHead (requestLine method target.pathAndQuery) (headFields ⟨host,authority.port⟩ headers framing forwarding)).length =
        (requestLine method target.pathAndQuery).length + 2 +
          ((wire ((headFields ⟨host,authority.port⟩ headers framing forwarding).map fieldLine)).length + 2) := by
      simp only [wireHead,wire_cons,List.length_append,List.length_cons,List.length_nil]
      omega
    obtain ⟨line,few,short⟩ := fits
    dsimp only at short
    rw [← received,List.length_map] at few
    rw [size,Nat.add_sub_cancel_left] at short
    constructor
    · intro parse parser
      apply RequestLineAgreement.accepted_parse parser
      dsimp only
      rw [split]
      exact requestLine_accepted (ensure_ok tokens) (careful.target accepted) (tidy.target accepted) line _
    · intro parse parser
      apply (accepted_grammar _ _ parse parser).mpr
      dsimp only
      rw [split,size,Nat.add_sub_cancel_left,← received,List.drop_append,List.drop_eq_nil_of_le (by omega),List.nil_append,
        Nat.add_sub_cancel_left]
      exact legible_section legible few short rest
    · dsimp only
      rw [size]
      exact Nat.le_add_right _ _
    · intro determine determiner consumed
      exact received_framing authority headers (ensure_ok framed) forwarding consumed determiner
    · intro reconcile reconciler routing consumed
      exact received_authority canonical range hosted (ensure_ok clean) framing forwarding consumed _ routing reconciler

/-- A head is within its limit, and the parsers find in it what it was built from whatever follows it. -/
theorem canonical_head_reads_back {construct} (registered : construct ∈ canonicalHeadImplementations) {method : List UInt8}
    {target : NormalizedTarget} {authority : EffectiveAuthority} {headers : SanitizedHeaders} {framing : BodyFraming}
    {forwarding : ForwardingResult} {head : CanonicalRequestHead} (canonical : CanonicalHost authority.host)
    (range : ∀ port ∈ authority.port, 1 ≤ port ∧ port ≤ 65535)
    (returned : construct method target authority headers framing forwarding = .ok head) :
    head.bytes.length ≤ headLimit ∧ (WithinLimits method target.pathAndQuery head (receivedFields authority headers framing forwarding) →
      ∀ rest, ReadsBack method target.pathAndQuery authority headers framing forwarding head rest) := by
  obtain ⟨host,built⟩ := implementation_built registered returned
  exact ⟨built.bounded,fun fits rest => head_reads_back registered canonical range returned fits rest⟩

/-- A request with a field of its own and a body of five bytes. -/
theorem canonical_head_reads_back_named : ∃ head,
    CanonicalHeadRulePhases.constructCanonicalUpstreamHead (ascii "post") ⟨.origin,none,none,ascii "/",ascii "/"⟩ namedHost
        ⟨[⟨ascii "accept",ascii "*/*"⟩],[]⟩ (.contentLength 5)
        ⟨ascii "for=192.0.2.1",ascii "192.0.2.1",ascii "http",ascii "example.test"⟩ = .ok head ∧
      ∀ rest, ReadsBack (ascii "post") (ascii "/") namedHost ⟨[⟨ascii "accept",ascii "*/*"⟩],[]⟩ (.contentLength 5)
        ⟨ascii "for=192.0.2.1",ascii "192.0.2.1",ascii "http",ascii "example.test"⟩ head rest := by
  have returned : CanonicalHeadRulePhases.constructCanonicalUpstreamHead (ascii "post") ⟨.origin,none,none,ascii "/",ascii "/"⟩
      namedHost ⟨[⟨ascii "accept",ascii "*/*"⟩],[]⟩ (.contentLength 5)
      ⟨ascii "for=192.0.2.1",ascii "192.0.2.1",ascii "http",ascii "example.test"⟩ =
      .ok ⟨ascii ("POST / HTTP/1.1\r\nHost: example.test\r\naccept: */*\r\nForwarded: for=192.0.2.1\r\n" ++
        "X-Forwarded-For: 192.0.2.1\r\nX-Forwarded-Proto: http\r\nX-Forwarded-Host: example.test\r\nContent-Length: 5\r\n" ++
        "Connection: close\r\n\r\n"),.contentLength 5⟩ := by decide +kernel
  obtain ⟨host,range⟩ := namedHost_reconciled.canonical
  obtain ⟨-,reads⟩ := canonical_head_reads_back (by simp [canonicalHeadImplementations]) host range returned
  exact ⟨_,returned,reads ⟨by decide +kernel,by decide +kernel,by decide +kernel⟩⟩

end RoundTrip
end Polyguard.CanonicalHead
