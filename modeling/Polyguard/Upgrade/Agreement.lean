import Polyguard.Upgrade.Keys
import Polyguard.Upgrade.Protocols

/-! The five implementations of `decide_upgrade` read the same facts off the fields
and settle them in the same way.
The fields are sorted by the eight names that count. A name that carries a value is
present, and it carries one value that is right, or none or several or a wrong one. -/
namespace Polyguard.UpgradeAgreement
open Ascii Slices HopByHopAgreement Upgrade
open UpgradeInvariantSignature (Kind)

def fieldName : Kind → List UInt8
  | .connection => ascii "connection"
  | .upgrade => ascii "upgrade"
  | .version => ascii "sec-websocket-version"
  | .key => ascii "sec-websocket-key"
  | .protocol => ascii "sec-websocket-protocol"
  | .extensions => ascii "sec-websocket-extensions"
  | .contentLength => ascii "content-length"
  | .transferEncoding => ascii "transfer-encoding"

def kindOf (name : List UInt8) : Option Kind :=
  UpgradeInvariantSignature.headerLookup.findSome? fun entry => if name == entry.1 then some entry.2 else none

theorem kindOf_fieldName (kind : Kind) : kindOf (fieldName kind) = some kind := by
  cases kind <;> rfl

theorem kind_cases (name : List UInt8) :
    (∃ kind, name = fieldName kind) ∨ kindOf name = none ∧ ∀ kind, name ≠ fieldName kind := by
  by_cases known : ∃ kind, name = fieldName kind
  · exact .inl known
  · have other : ∀ kind, name ≠ fieldName kind := fun kind same => known ⟨kind,same⟩
    refine .inr ⟨?_,other⟩
    unfold kindOf
    rw [List.findSome?_eq_none_iff]
    intro entry listed
    rw [if_neg]
    rw [beq_iff_eq]
    intro same
    simp only [UpgradeInvariantSignature.headerLookup,List.mem_cons,List.not_mem_nil,or_false] at listed
    rcases listed with rfl | rfl | rfl | rfl | rfl | rfl | rfl | rfl
    · exact other .connection same
    · exact other .upgrade same
    · exact other .version same
    · exact other .key same
    · exact other .protocol same
    · exact other .extensions same
    · exact other .contentLength same
    · exact other .transferEncoding same

theorem name_kind (name : List UInt8) (kind : Kind) : (name == fieldName kind) = decide (kindOf name = some kind) := by
  rw [Bool.eq_iff_iff,beq_iff_eq,decide_eq_true_eq]
  constructor
  · rintro rfl
    exact kindOf_fieldName kind
  · intro found
    rcases kind_cases name with ⟨other,rfl⟩ | ⟨absent,-⟩
    · rw [kindOf_fieldName] at found
      cases found
      rfl
    · rw [absent] at found
      cases found

theorem name_ladder {α : Type} (name : List UInt8) (arm : Kind → α) (other : α) :
    (if name = ascii "connection" then arm .connection
      else if name = ascii "upgrade" then arm .upgrade
      else if name = ascii "sec-websocket-version" then arm .version
      else if name = ascii "sec-websocket-key" then arm .key
      else if name = ascii "sec-websocket-protocol" then arm .protocol
      else if name = ascii "sec-websocket-extensions" then arm .extensions
      else if name = ascii "content-length" then arm .contentLength
      else if name = ascii "transfer-encoding" then arm .transferEncoding
      else other) = ((kindOf name).map arm).getD other := by
  rcases kind_cases name with ⟨kind,rfl⟩ | ⟨absent,none⟩
  · rw [kindOf_fieldName]
    cases kind <;> rfl
  · rw [absent]
    refine (if_neg (none .connection)).trans ((if_neg (none .upgrade)).trans ((if_neg (none .version)).trans
      ((if_neg (none .key)).trans ((if_neg (none .protocol)).trans ((if_neg (none .extensions)).trans
        ((if_neg (none .contentLength)).trans (if_neg (none .transferEncoding))))))))

/-- The values of the fields of one kind, in order. -/
def values (kind : Kind) (fields : List HeaderField) : List (List UInt8) :=
  (fields.filter (·.name == fieldName kind)).map (·.value)

theorem values_nil (kind : Kind) : values kind [] = [] := rfl

theorem values_cons (kind : Kind) (field : HeaderField) (fields : List HeaderField) :
    values kind (field :: fields) =
      if kindOf field.name = some kind then field.value :: values kind fields else values kind fields := by
  unfold values
  rw [List.filter_cons,name_kind]
  by_cases same : kindOf field.name = some kind
  · simp [same]
  · simp [same]

theorem values_snoc (kind : Kind) (fields : List HeaderField) (field : HeaderField) :
    values kind (fields ++ [field]) =
      values kind fields ++ if kindOf field.name = some kind then [field.value] else [] := by
  induction fields with
  | nil =>
    rw [List.nil_append,values_cons,values_nil]
    rfl
  | cons first fields ih =>
    rw [List.cons_append,values_cons,values_cons,ih]
    by_cases same : kindOf first.name = some kind
    · simp [same]
    · simp [same]

theorem present_iff (kind : Kind) (fields : List HeaderField) :
    fields.any (·.name == fieldName kind) = !(values kind fields).isEmpty := by
  induction fields with
  | nil => rfl
  | cons field fields ih =>
    rw [List.any_cons,ih,values_cons,name_kind]
    by_cases same : kindOf field.name = some kind
    · simp [same]
    · simp [same]

/-- One value, and it passes. -/
def single (passes : List UInt8 → Bool) : List (List UInt8) → Bool
  | [value] => passes value
  | _ => false

/-- No value, or one that passes. -/
def atMostOne (passes : List UInt8 → Bool) : List (List UInt8) → Bool
  | [] => true
  | [value] => passes value
  | _ => false

def isWebsocket (value : List UInt8) : Bool := eqIgnoreAsciiCase (trim isOws value) (ascii "websocket")

def isVersion13 (value : List UInt8) : Bool := trim isOws value == ascii "13"

def isKey (value : List UInt8) : Bool := (decodeKeyWith base64Digit (trim isOws value)).isSome

def isProtocols (value : List UInt8) : Bool := distinctTokens (members value)

/-- The connection value lists the word among its members. -/
def asksUpgrade (value : List UInt8) : Bool := (members value).any fun member => eqIgnoreAsciiCase member (ascii "upgrade")

/-- The value of every connection field is a list of tokens. -/
def Clean (fields : List HeaderField) : Prop := ∀ value ∈ values .connection fields, (members value).all isToken

/-- What counts, read off the fields and the request. -/
structure Facts where
  upgrade : Bool
  connection : Bool
  contentLength : Bool
  transferEncoding : Bool
  handshake : Bool

def facts (request : RequestLine) (fields : List HeaderField) : Facts where
  upgrade := !(values .upgrade fields).isEmpty
  connection := (values .connection fields).any asksUpgrade
  contentLength := !(values .contentLength fields).isEmpty
  transferEncoding := !(values .transferEncoding fields).isEmpty
  handshake :=
    single asksUpgrade (values .connection fields) && single isWebsocket (values .upgrade fields) &&
      single isVersion13 (values .version fields) && single isKey (values .key fields) &&
      atMostOne isProtocols (values .protocol fields) && (values .extensions fields).isEmpty &&
      request.method == ascii "get" && isOriginOrAbsolute request.target

/-- The decision over the facts. -/
def settle (facts : Facts) (framing : BodyFraming) : Result UpgradeDecision :=
  if !facts.upgrade && !facts.connection then .ok .none
  else if facts.contentLength && facts.transferEncoding then ambiguousFraming
  else if facts.upgrade && facts.connection && facts.handshake && !facts.contentLength && !facts.transferEncoding &&
      framing = .none then .ok .webSocket
  else unsupportedUpgrade

theorem settle_congr {left right : Facts} (framing : BodyFraming) (upgrade : left.upgrade = right.upgrade)
    (connection : left.connection = right.connection) (contentLength : left.contentLength = right.contentLength)
    (transferEncoding : left.transferEncoding = right.transferEncoding)
    (handshake : right.upgrade → right.connection → right.contentLength = false → right.transferEncoding = false →
      left.handshake = right.handshake) :
    settle left framing = settle right framing := by
  obtain ⟨u,c,l,t,h⟩ := right
  obtain ⟨u',c',l',t',h'⟩ := left
  dsimp only at upgrade connection contentLength transferEncoding handshake
  subst upgrade connection contentLength transferEncoding
  cases u' with
  | false => simp [settle]
  | true =>
    cases c' with
    | false => simp [settle]
    | true =>
      cases l' with
      | true => simp [settle]
      | false =>
        cases t' with
        | true => simp [settle]
        | false => simp [settle,handshake rfl rfl rfl rfl]

def reference (request : RequestLine) (headers : HeaderBlock) (framing : BodyFraming) : Result UpgradeDecision :=
  settle (facts request headers.fields) framing

/-- A loop over the members of a connection value that keeps whether the word was met. -/
theorem connection_loop {ρ : Type} (loop : Bool → List (List UInt8) → ρ) (finish : Bool → ρ)
    (empty : ∀ met, loop met [] = finish met)
    (round : ∀ met raw raws, isToken (trim isOws raw) →
      loop met (raw :: raws) = loop (met || eqIgnoreAsciiCase (trim isOws raw) (ascii "upgrade")) raws)
    (met : Bool) (raws : List (List UInt8)) (tokens : (raws.map (trim isOws)).all isToken) :
    loop met raws =
      finish (met || (raws.map (trim isOws)).any fun member => eqIgnoreAsciiCase member (ascii "upgrade")) := by
  induction raws generalizing met with
  | nil => simp [empty]
  | cons raw raws ih =>
    rw [List.map_cons,List.all_cons,Bool.and_eq_true] at tokens
    rw [round met raw raws tokens.1,ih _ tokens.2,List.map_cons,List.any_cons,Bool.or_assoc]

theorem any_congr {p q : List UInt8 → Bool} {values : List (List UInt8)} (same : ∀ value ∈ values, p value = q value) :
    values.any p = values.any q := by
  rw [Bool.eq_iff_iff,List.any_eq_true,List.any_eq_true]
  constructor
  · rintro ⟨value,member,passes⟩
    exact ⟨value,member,same value member ▸ passes⟩
  · rintro ⟨value,member,passes⟩
    exact ⟨value,member,same value member ▸ passes⟩

theorem token_accepted {member : List UInt8} (token : isToken member) : (member.isEmpty || !member.all isTchar) = false := by
  rw [refused_token,token]
  rfl

section Composable
open UpgradeComposableTable

theorem composable_connection {value : List UInt8} (tokens : (members value).all isToken) :
    inspectConnection value = some (asksUpgrade value) := by
  have loop := connection_loop inspectFrom some (fun _ => rfl)
    (fun met raw raws token => if_neg (by rw [show trimUpgradeOws raw = trim isOws raw from rfl,token_accepted token]; simp))
    false (value.splitOn 0x2c) tokens
  rw [Bool.false_or] at loop
  exact loop

/-- What one field adds to the record. -/
def readKind (result : UpgradeFields) (value : List UInt8) : Kind → UpgradeFields
  | .connection =>
    { result with
      connectionHasUpgrade := if inspectConnection value = some true then true else result.connectionHasUpgrade,
      connection := result.connection.record (inspectConnection value).isSome }
  | .upgrade => { result with upgrade := result.upgrade.record (isWebsocket value) }
  | .version => { result with version := result.version.record (isVersion13 value) }
  | .key => { result with key := result.key.record (isCanonicalWebsocketKey (trim isOws value)) }
  | .protocol => { result with protocol := result.protocol.record (validProtocolList value) }
  | .extensions => { result with hasExtensions := true }
  | .contentLength => { result with hasContentLength := true }
  | .transferEncoding => { result with hasTransferEncoding := true }

theorem readField_kind (result : UpgradeFields) (field : HeaderField) :
    readField result field = ((kindOf field.name).map (readKind result field.value)).getD result :=
  name_ladder field.name (readKind result field.value) result

def recorded (passes : List UInt8 → Bool) (occurrence : Occurrence) (values : List (List UInt8)) : Occurrence :=
  values.foldl (fun occurrence value => occurrence.record (passes value)) occurrence

theorem read_fields (fields : List HeaderField) (start : UpgradeFields) :
    fields.foldl readField start =
      { connection := recorded (fun value => (inspectConnection value).isSome) start.connection (values .connection fields)
        connectionHasUpgrade :=
          start.connectionHasUpgrade || (values .connection fields).any fun value => inspectConnection value == some true
        upgrade := recorded isWebsocket start.upgrade (values .upgrade fields)
        version := recorded isVersion13 start.version (values .version fields)
        key := recorded (fun value => isCanonicalWebsocketKey (trim isOws value)) start.key (values .key fields)
        protocol := recorded validProtocolList start.protocol (values .protocol fields)
        hasExtensions := start.hasExtensions || !(values .extensions fields).isEmpty
        hasContentLength := start.hasContentLength || !(values .contentLength fields).isEmpty
        hasTransferEncoding := start.hasTransferEncoding || !(values .transferEncoding fields).isEmpty } := by
  induction fields generalizing start with
  | nil => simp [recorded,values_nil]
  | cons field fields ih =>
    rw [List.foldl_cons,ih,readField_kind]
    simp only [values_cons]
    cases kindOf field.name with
    | none => simp
    | some kind =>
      cases kind with
      | connection =>
        cases checked : inspectConnection field.value with
        | none => simp [readKind,recorded,checked]
        | some met => cases met <;> simp [readKind,recorded,checked]
      | _ => simp [readKind,recorded]

theorem recorded_repeated (passes : List UInt8 → Bool) (values : List (List UInt8)) :
    recorded passes .repeated values = .repeated := by
  induction values with
  | nil => rfl
  | cons value values ih => exact ih

theorem recorded_several (passes : List UInt8 → Bool) (first second : List UInt8) (rest : List (List UInt8)) :
    recorded passes .missing (first :: second :: rest) = .repeated := recorded_repeated passes rest

theorem recorded_one (passes : List UInt8 → Bool) (values : List (List UInt8)) :
    decide (recorded passes .missing values = .one true) = single passes values := by
  rcases values with _ | ⟨value,_ | ⟨second,rest⟩⟩
  · rfl
  · simp [recorded,Occurrence.record,single]
  · rw [recorded_several]
    rfl

theorem recorded_missing (passes : List UInt8 → Bool) (values : List (List UInt8)) :
    decide (recorded passes .missing values = .missing) = values.isEmpty := by
  rcases values with _ | ⟨value,_ | ⟨second,rest⟩⟩
  · rfl
  · simp [recorded,Occurrence.record]
  · rw [recorded_several]
    rfl

theorem single_congr {left right : List UInt8 → Bool} {values : List (List UInt8)}
    (same : ∀ value ∈ values, left value = right value) : single left values = single right values := by
  rcases values with _ | ⟨value,_ | ⟨second,rest⟩⟩
  · rfl
  · exact same value (by simp)
  · rfl

theorem composable_settle (request : RequestLine) (headers : HeaderBlock) (framing : BodyFraming) :
    decideUpgrade request headers framing =
      settle ⟨(read headers).upgrade.exists,(read headers).connectionHasUpgrade,(read headers).hasContentLength,
        (read headers).hasTransferEncoding,handshakeShape (read headers) request matches .complete⟩ framing := by
  unfold decideUpgrade intent framingSafety settle
  dsimp only
  cases (read headers).upgrade.exists <;> cases (read headers).connectionHasUpgrade <;>
    cases (read headers).hasContentLength <;> cases (read headers).hasTransferEncoding <;>
    cases handshakeShape (read headers) request <;> cases framing <;> rfl

theorem atMostOne_eq (passes : List UInt8 → Bool) (values : List (List UInt8)) :
    atMostOne passes values = (values.isEmpty || single passes values) := by
  rcases values with _ | ⟨value,_ | ⟨second,rest⟩⟩
  · rfl
  · rfl
  · rfl

theorem single_listed {passes : List UInt8 → Bool} {values : List (List UInt8)}
    (valid : ∀ value ∈ values, passes value = true) (listed : values.any asksUpgrade) :
    single passes values = single asksUpgrade values := by
  rcases values with _ | ⟨value,_ | ⟨second,rest⟩⟩
  · rfl
  · have met : asksUpgrade value = true := by simpa using listed
    simp only [single,valid value (by simp),met]
  · rfl

theorem complete_shape (complete : Bool) :
    ((if complete then HandshakeShape.complete else .incomplete) matches .complete) = complete := by
  cases complete <;> rfl

theorem composable_reference (request : RequestLine) (headers : HeaderBlock) (framing : BodyFraming)
    (clean : Clean headers.fields) : decideUpgrade request headers framing = reference request headers framing := by
  have checked : ∀ value ∈ values .connection headers.fields, inspectConnection value = some (asksUpgrade value) :=
    fun value member => composable_connection (clean value member)
  have keys : (fun value => isCanonicalWebsocketKey (trim isOws value)) = isKey := by
    funext value
    exact checked_key (trim isOws value)
  have protocols : validProtocolList = isProtocols := by
    funext value
    exact unique_members (value.splitOn 0x2c)
  have listed : (values .connection headers.fields).any (fun value => inspectConnection value == some true) =
      (values .connection headers.fields).any asksUpgrade := by
    apply any_congr
    intro value member
    simp [checked value member]
  have found := read_fields headers.fields .empty
  simp only [UpgradeFields.empty,Bool.false_or,keys,protocols,listed] at found
  rw [composable_settle]
  unfold UpgradeComposableTable.read reference
  unfold UpgradeFields.empty
  rw [found]
  apply settle_congr
  · exact (decide_not ..).trans (congrArg not (recorded_missing isWebsocket _))
  · rfl
  · rfl
  · rfl
  · intro _ connection _ _
    have valid : ∀ value ∈ values .connection headers.fields, (inspectConnection value).isSome = true := by
      intro value member
      rw [checked value member]
      rfl
    dsimp only [handshakeShape,facts]
    rw [complete_shape,recorded_one,recorded_one,recorded_one,recorded_one,recorded_one,recorded_missing,
      single_listed valid connection,atMostOne_eq,Bool.not_not]

end Composable

section Obligations
open UpgradeObligationAlgebra

theorem obligation_connection {value : List UInt8} (tokens : (members value).all isToken) :
    validateConnection value = if asksUpgrade value then .upgrade else .noUpgrade := by
  have loop := connection_loop UpgradeObligationAlgebra.validateFrom
    (fun met => if met then .upgrade else .noUpgrade) (fun _ => rfl)
    (by
      intro met raw raws token
      unfold isToken at token
      simp only [UpgradeObligationAlgebra.validateFrom,obligation_trim,token,if_true]
      cases met with
      | true => simp
      | false => cases eqIgnoreAsciiCase (trim isOws raw) (ascii "upgrade") <;> simp)
    false (value.splitOn 0x2c) tokens
  rw [Bool.false_or] at loop
  exact loop

/-- What one field discharges or contradicts. -/
def validateKind (facts : BoundaryFacts) (value : List UInt8) : Kind → BoundaryFacts
  | .connection =>
    { facts with
      connection := facts.connection.supply (validateConnection value = .upgrade),
      connectionUpgradePresent := facts.connectionUpgradePresent || validateConnection value = .upgrade }
  | .upgrade => { facts with upgradeFieldPresent := true, upgrade := facts.upgrade.supply (isWebsocket value) }
  | .version => { facts with version := facts.version.supply (isVersion13 value) }
  | .key => { facts with key := facts.key.supply (canonicalKey (trim isOws value)) }
  | .protocol => { facts with protocol := facts.protocol.supply (uniqueProtocols value) }
  | .extensions => { facts with extensionsPresent := true }
  | .contentLength => { facts with contentLengthPresent := true }
  | .transferEncoding => { facts with transferEncodingPresent := true }

theorem validateField_kind (facts : BoundaryFacts) (field : HeaderField) :
    validateField facts field = ((kindOf field.name).map (validateKind facts field.value)).getD facts := by
  unfold validateField
  rw [obligation_trim]
  exact name_ladder field.name (validateKind facts field.value) facts

def supplied (passes : List UInt8 → Bool) (obligation : Obligation) (values : List (List UInt8)) : Obligation :=
  values.foldl (fun obligation value => obligation.supply (passes value)) obligation

theorem validate_fields (fields : List HeaderField) (start : BoundaryFacts) :
    fields.foldl validateField start =
      { connection :=
          supplied (fun value => validateConnection value = .upgrade) start.connection (values .connection fields)
        upgrade := supplied isWebsocket start.upgrade (values .upgrade fields)
        version := supplied isVersion13 start.version (values .version fields)
        key := supplied (fun value => canonicalKey (trim isOws value)) start.key (values .key fields)
        protocol := supplied uniqueProtocols start.protocol (values .protocol fields)
        upgradeFieldPresent := start.upgradeFieldPresent || !(values .upgrade fields).isEmpty
        connectionUpgradePresent := start.connectionUpgradePresent ||
          (values .connection fields).any fun value => validateConnection value = .upgrade
        extensionsPresent := start.extensionsPresent || !(values .extensions fields).isEmpty
        contentLengthPresent := start.contentLengthPresent || !(values .contentLength fields).isEmpty
        transferEncodingPresent := start.transferEncodingPresent || !(values .transferEncoding fields).isEmpty } := by
  induction fields generalizing start with
  | nil => simp [supplied,values_nil]
  | cons field fields ih =>
    rw [List.foldl_cons,ih,validateField_kind]
    simp only [values_cons]
    cases kindOf field.name with
    | none => simp
    | some kind => cases kind <;> simp [validateKind,supplied,Bool.or_assoc]

theorem supplied_contradicted (passes : List UInt8 → Bool) (values : List (List UInt8)) :
    supplied passes .contradicted values = .contradicted := by
  induction values with
  | nil => rfl
  | cons value values ih => exact ih

theorem supplied_several (passes : List UInt8 → Bool) (first second : List UInt8) (rest : List (List UInt8)) :
    supplied passes .opened (first :: second :: rest) = .contradicted := by
  have contradicted : (Obligation.opened.supply (passes first)).supply (passes second) = .contradicted := by
    cases passes first <;> cases passes second <;> rfl
  change supplied passes ((Obligation.opened.supply (passes first)).supply (passes second)) rest = .contradicted
  rw [contradicted,supplied_contradicted]

theorem supplied_discharged (passes : List UInt8 → Bool) (values : List (List UInt8)) :
    decide (supplied passes .opened values = .discharged) = single passes values := by
  rcases values with _ | ⟨value,_ | ⟨second,rest⟩⟩
  · rfl
  · cases passed : passes value <;> simp [supplied,Obligation.supply,single,passed]
  · rw [supplied_several]
    rfl

theorem supplied_opened (passes : List UInt8 → Bool) (values : List (List UInt8)) :
    decide (supplied passes .opened values = .opened) = values.isEmpty := by
  rcases values with _ | ⟨value,_ | ⟨second,rest⟩⟩
  · rfl
  · cases passed : passes value <;> simp [supplied,Obligation.supply,passed]
  · rw [supplied_several]
    rfl

theorem obligation_settle (request : RequestLine) (headers : HeaderBlock) (framing : BodyFraming) :
    decideUpgrade request headers framing =
      settle ⟨(validate headers).upgradeFieldPresent,(validate headers).connectionUpgradePresent,
        (validate headers).contentLengthPresent,(validate headers).transferEncodingPresent,
        handshake (validate headers) request matches .complete⟩ framing := by
  unfold decideUpgrade intent framingEvidence settle
  dsimp only
  cases (validate headers).upgradeFieldPresent <;> cases (validate headers).connectionUpgradePresent <;>
    cases (validate headers).contentLengthPresent <;> cases (validate headers).transferEncodingPresent <;>
    cases handshake (validate headers) request <;> cases framing <;> rfl

theorem complete_evidence (complete : Bool) :
    ((if complete then HandshakeEvidence.complete else .incomplete) matches .complete) = complete := by
  cases complete <;> rfl

theorem target_evidence (target : List UInt8) : decide (targetForm target ≠ .other) = isOriginOrAbsolute target := by
  unfold targetForm isOriginOrAbsolute
  cases target.head? == some 0x2f with
  | true => rfl
  | false =>
    cases opensWith target (ascii "http://") with
    | true => rfl
    | false => cases opensWith target (ascii "https://") <;> rfl

theorem obligation_reference (request : RequestLine) (headers : HeaderBlock) (framing : BodyFraming)
    (clean : Clean headers.fields) : decideUpgrade request headers framing = reference request headers framing := by
  have checked : ∀ value ∈ values .connection headers.fields,
      decide (validateConnection value = .upgrade) = asksUpgrade value := by
    intro value member
    rw [obligation_connection (clean value member)]
    cases asksUpgrade value <;> rfl
  have keys : (fun value => canonicalKey (trim isOws value)) = isKey := by
    funext value
    exact table_key (trim isOws value)
  have protocols : uniqueProtocols = isProtocols := by
    funext value
    exact (obligation_members [] _).trans (unique_members (value.splitOn 0x2c))
  have found := validate_fields headers.fields .none
  simp only [BoundaryFacts.none,Bool.false_or,keys,protocols,any_congr checked] at found
  rw [obligation_settle]
  unfold validate reference BoundaryFacts.none
  rw [found]
  apply settle_congr
  · rfl
  · rfl
  · rfl
  · rfl
  · intro _ _ noLength noEncoding
    dsimp only [handshake,facts] at noLength noEncoding ⊢
    rw [complete_evidence,supplied_discharged,supplied_discharged,supplied_discharged,supplied_discharged,
      supplied_discharged,supplied_opened,target_evidence,single_congr checked,atMostOne_eq,noLength,noEncoding,
      Bool.not_not,Bool.not_false,Bool.and_true,Bool.and_true]

end Obligations

section Matrix
open UpgradeTransformationMatrix

theorem transformOne_present {α : Type} (headers : HeaderBlock) (kind : Kind) (transform : List UInt8 → α) :
    (transformOne headers (fieldName kind) transform).present = !(values kind headers.fields).isEmpty := by
  unfold transformOne values
  generalize headers.fields.filter (fun field => field.name == fieldName kind) = listed
  rcases listed with _ | ⟨field,_ | ⟨second,rest⟩⟩
  · rfl
  · rfl
  · rfl

theorem transformOne_one {α : Type} (headers : HeaderBlock) (kind : Kind) (transform : List UInt8 → α) (holds : α → Bool) :
    (transformOne headers (fieldName kind) transform).oneWith holds =
      single (fun value => holds (transform value)) (values kind headers.fields) := by
  unfold transformOne values
  generalize headers.fields.filter (fun field => field.name == fieldName kind) = listed
  rcases listed with _ | ⟨field,_ | ⟨second,rest⟩⟩
  · rfl
  · rfl
  · rfl

theorem matrix_connection {value : List UInt8} (tokens : (members value).all isToken) :
    parseConnection value = ⟨true,asksUpgrade value⟩ := by
  have loop := connection_loop (fun met raws => List.foldl parseToken ⟨true,met⟩ raws)
    (fun met => ⟨true,met⟩) (fun _ => rfl)
    (by
      intro met raw raws token
      have trims : trimUpgradeOws raw = trim isOws raw := rfl
      unfold isToken at token
      simp only [List.foldl_cons,parseToken,trims,token,Bool.true_and])
    false (value.splitOn 0x2c) tokens
  rw [Bool.false_or] at loop
  exact loop

theorem matrix_settle (request : RequestLine) (headers : HeaderBlock) (framing : BodyFraming) :
    decideUpgrade request headers framing =
      settle ⟨(transform headers).upgrade.present,(transform headers).connectionIntent,
        (transform headers).contentLengthPresent,(transform headers).transferEncodingPresent,
        handshakeComplete (transform headers) request⟩ framing := by
  unfold decideUpgrade intent framingRisk settle
  dsimp only
  cases (transform headers).upgrade.present <;> cases (transform headers).connectionIntent <;>
    cases (transform headers).contentLengthPresent <;> cases (transform headers).transferEncodingPresent <;>
    cases handshakeComplete (transform headers) request <;> cases framing <;> rfl

/-- What an upgrade value is transformed to. -/
def upgradeProtocol (value : List UInt8) : UpgradeProtocol :=
  if eqIgnoreAsciiCase (trimUpgradeOws value) (ascii "websocket") then .webSocket else .other

theorem matrix_handshake (request : RequestLine) (headers : HeaderBlock) (clean : Clean headers.fields)
    (noLength : (facts request headers.fields).contentLength = false)
    (noEncoding : (facts request headers.fields).transferEncoding = false) :
    handshakeComplete (transform headers) request = (facts request headers.fields).handshake := by
  have connection : (transform headers).connection.oneWith (fun tokens => tokens.syntaxValid && tokens.hasUpgrade) =
      single asksUpgrade (values .connection headers.fields) := by
    refine (transformOne_one headers .connection _ _).trans (single_congr ?_)
    intro value member
    rw [matrix_connection (clean value member)]
    exact Bool.true_and _
  have upgrade : (transform headers).upgrade.oneWith (fun value => decide (value = .webSocket)) =
      single isWebsocket (values .upgrade headers.fields) := by
    refine (transformOne_one headers .upgrade upgradeProtocol _).trans (single_congr ?_)
    intro value _
    unfold upgradeProtocol
    rw [show isWebsocket value = eqIgnoreAsciiCase (trimUpgradeOws value) (ascii "websocket") from rfl]
    cases eqIgnoreAsciiCase (trimUpgradeOws value) (ascii "websocket") <;> rfl
  have version : (transform headers).version.oneWith id = single isVersion13 (values .version headers.fields) :=
    transformOne_one headers .version isVersion13 id
  have key : (transform headers).key.oneWith (fun key => key.any (·.length == 16)) =
      single isKey (values .key headers.fields) := by
    refine (transformOne_one headers .key (fun value => decodeKey (trimUpgradeOws value)) _).trans (single_congr ?_)
    intro value _
    exact decodeKey_sized (trim isOws value)
  have listed : (transform headers).protocols.present = !(values .protocol headers.fields).isEmpty :=
    transformOne_present headers .protocol _
  have protocols : (transform headers).protocols.oneWith id = single isProtocols (values .protocol headers.fields) := by
    refine (transformOne_one headers .protocol _ _).trans (single_congr ?_)
    intro value _
    exact unique_members (value.splitOn 0x2c)
  have extensions : (transform headers).extensionsPresent = !(values .extensions headers.fields).isEmpty :=
    present_iff .extensions headers.fields
  have length : (transform headers).contentLengthPresent = false :=
    (present_iff .contentLength headers.fields).trans noLength
  have encoding : (transform headers).transferEncodingPresent = false :=
    (present_iff .transferEncoding headers.fields).trans noEncoding
  unfold handshakeComplete
  rw [connection,upgrade,version,key,listed,protocols,extensions,length,encoding]
  simp only [facts,atMostOne_eq,Bool.not_not,Bool.not_false,Bool.and_true]

theorem matrix_reference (request : RequestLine) (headers : HeaderBlock) (framing : BodyFraming)
    (clean : Clean headers.fields) : decideUpgrade request headers framing = reference request headers framing := by
  rw [matrix_settle]
  apply settle_congr
  · exact transformOne_present headers .upgrade upgradeProtocol
  · change List.any _ _ = List.any ((headers.fields.filter _).map _) asksUpgrade
    rw [List.any_map,Bool.eq_iff_iff,List.any_eq_true,List.any_eq_true]
    apply exists_congr
    intro field
    apply and_congr_right
    intro member
    have listed : field.value ∈ values .connection headers.fields := List.mem_map_of_mem member
    rw [matrix_connection (clean field.value listed)]
    rfl
  · exact present_iff .contentLength headers.fields
  · exact present_iff .transferEncoding headers.fields
  · intro _ _ noLength noEncoding
    exact matrix_handshake request headers clean noLength noEncoding

end Matrix

section Observations
open UpgradeObservationPolicy

theorem observation_connection {value : List UInt8} (tokens : (members value).all isToken) :
    parseConnection value = ⟨true,asksUpgrade value⟩ := by
  have loop := connection_loop parseFrom (fun met => ⟨true,met⟩) (fun _ => rfl)
    (fun met raw raws token => if_neg (by rw [show trimUpgradeOws raw = trim isOws raw from rfl,token_accepted token]; simp))
    false (value.splitOn 0x2c) tokens
  rw [Bool.false_or] at loop
  exact loop

def observeKind (value : List UInt8) : Kind → Option HeaderObservation
  | .connection => some (.connection (parseConnection value))
  | .upgrade => some (.upgrade (if isWebsocket value then .webSocket else .other))
  | .version => some (.version13 (isVersion13 value))
  | .key => some (.key16 (isKey value))
  | .protocol => some (.protocolList (validateProtocolList value))
  | .extensions => some .extensions
  | .contentLength => some .contentLength
  | .transferEncoding => some .transferEncoding

theorem observeHeader_kind (field : HeaderField) :
    observeHeader field = ((kindOf field.name).map (observeKind field.value)).getD none :=
  name_ladder field.name (observeKind field.value) none

theorem observed_values {α : Type} (kind : Kind) (select : HeaderObservation → Option α) (observe : List UInt8 → α)
    (selects : ∀ value other, (observeKind value other).bind select = if other = kind then some (observe value) else none)
    (fields : List HeaderField) :
    (fields.filterMap observeHeader).filterMap select = (values kind fields).map observe := by
  rw [List.filterMap_filterMap]
  induction fields with
  | nil => rfl
  | cons field fields ih =>
    rw [List.filterMap_cons,observeHeader_kind,values_cons]
    cases kindOf field.name with
    | none => simp [ih]
    | some other =>
      by_cases same : other = kind
      · subst same
        simp [selects,ih]
      · simp [selects,same,ih]

theorem any_selected {α β : Type} (select : α → Option β) (p : β → Bool) (items : List α) :
    (items.filterMap select).any p = items.any fun item => (select item).any p := by
  rw [List.any_filterMap]
  rfl

theorem observed_any (kind : Kind) (select : HeaderObservation → Bool)
    (selects : ∀ value other, (observeKind value other).any select = decide (other = kind)) (fields : List HeaderField) :
    (fields.filterMap observeHeader).any select = !(values kind fields).isEmpty := by
  rw [any_selected]
  induction fields with
  | nil => rfl
  | cons field fields ih =>
    rw [List.any_cons,observeHeader_kind,values_cons,ih]
    cases kindOf field.name with
    | none => simp
    | some other =>
      rw [Option.map_some,Option.getD_some,selects]
      by_cases same : other = kind
      · simp [same]
      · simp [same]

theorem exactlyOne_any {α : Type} (observe : List UInt8 → α) (passes : α → Bool) (values : List (List UInt8)) :
    (exactlyOne (values.map observe)).any passes = single (fun value => passes (observe value)) values := by
  rcases values with _ | ⟨value,_ | ⟨second,rest⟩⟩
  · rfl
  · rfl
  · rfl

theorem exactlyOne_true (passes : List UInt8 → Bool) (values : List (List UInt8)) :
    (exactlyOne (values.map passes) == some true) = single passes values := by
  rcases values with _ | ⟨value,_ | ⟨second,rest⟩⟩
  · rfl
  · cases passed : passes value <;> simp [exactlyOne,single,passed]
  · rfl

theorem optionalOne_allowed (passes : List UInt8 → Bool) (values : List (List UInt8)) :
    (optionalOne (values.map passes)).allowed = atMostOne passes values := by
  rcases values with _ | ⟨value,_ | ⟨second,rest⟩⟩
  · rfl
  · rfl
  · rfl

theorem observation_settle (request : RequestLine) (headers : HeaderBlock) (framing : BodyFraming)
    (observations : List HeaderObservation) (observed : headers.fields.filterMap observeHeader = observations) :
    decideUpgrade request headers framing =
      settle ⟨observations.any fun item => item.asUpgrade.isSome,
        observations.any fun item => item.asConnection.any (·.upgrades),observations.any (·.isContentLength),
        observations.any (·.isTransferEncoding),classifyHandshake request observations matches .complete⟩ framing := by
  unfold decideUpgrade classifyIntent classifyFraming settle
  rw [observed]
  dsimp only
  cases observations.any fun item => item.asUpgrade.isSome <;>
    cases observations.any fun item => item.asConnection.any (·.upgrades) <;>
    cases observations.any (·.isContentLength) <;> cases observations.any (·.isTransferEncoding) <;>
    cases classifyHandshake request observations <;> cases framing <;> rfl

theorem complete_policy (complete : Bool) :
    ((if complete then HandshakePolicy.complete else .incomplete) matches .complete) = complete := by
  cases complete <;> rfl

theorem any_either {α : Type} (p q r : α → Bool) (items : List α) :
    items.any (fun item => p item || q item || r item) = (items.any p || items.any q || items.any r) := by
  induction items with
  | nil => rfl
  | cons item items ih =>
    simp only [List.any_cons,ih]
    cases p item <;> cases q item <;> cases r item <;> simp

theorem observation_reference (request : RequestLine) (headers : HeaderBlock) (framing : BodyFraming)
    (clean : Clean headers.fields) : decideUpgrade request headers framing = reference request headers framing := by
  generalize observed : headers.fields.filterMap observeHeader = observations
  have connections : observations.filterMap (·.asConnection) = (values .connection headers.fields).map parseConnection := by
    rw [← observed]
    refine observed_values .connection (·.asConnection) parseConnection ?_ _
    intro value other
    cases other <;> rfl
  have upgrades : observations.filterMap (·.asUpgrade) =
      (values .upgrade headers.fields).map fun value => if isWebsocket value then .webSocket else .other := by
    rw [← observed]
    refine observed_values .upgrade (·.asUpgrade) (fun value => if isWebsocket value then .webSocket else .other) ?_ _
    intro value other
    cases other <;> rfl
  have versions : observations.filterMap (·.asVersion) = (values .version headers.fields).map isVersion13 := by
    rw [← observed]
    refine observed_values .version (·.asVersion) isVersion13 ?_ _
    intro value other
    cases other <;> rfl
  have keys : observations.filterMap (·.asKey) = (values .key headers.fields).map isKey := by
    rw [← observed]
    refine observed_values .key (·.asKey) isKey ?_ _
    intro value other
    cases other <;> rfl
  have protocols : observations.filterMap (·.asProtocols) = (values .protocol headers.fields).map isProtocols := by
    rw [← observed,show isProtocols = validateProtocolList from
      funext fun value => (unique_members (value.splitOn 0x2c)).symm]
    refine observed_values .protocol (·.asProtocols) validateProtocolList ?_ _
    intro value other
    cases other <;> rfl
  have upgrade : observations.any (fun item => item.asUpgrade.isSome) = !(values .upgrade headers.fields).isEmpty := by
    rw [← observed]
    refine observed_any .upgrade _ ?_ _
    intro value other
    cases other <;> rfl
  have extensions : observations.any (·.isExtensions) = !(values .extensions headers.fields).isEmpty := by
    rw [← observed]
    refine observed_any .extensions _ ?_ _
    intro value other
    cases other <;> rfl
  have length : observations.any (·.isContentLength) = !(values .contentLength headers.fields).isEmpty := by
    rw [← observed]
    refine observed_any .contentLength _ ?_ _
    intro value other
    cases other <;> rfl
  have encoding : observations.any (·.isTransferEncoding) = !(values .transferEncoding headers.fields).isEmpty := by
    rw [← observed]
    refine observed_any .transferEncoding _ ?_ _
    intro value other
    cases other <;> rfl
  have asked : ∀ value ∈ values .connection headers.fields, (parseConnection value).upgrades = asksUpgrade value := by
    intro value member
    rw [observation_connection (clean value member)]
    exact Bool.true_and _
  have connection : observations.any (fun item => item.asConnection.any (·.upgrades)) =
      (values .connection headers.fields).any asksUpgrade := by
    rw [← any_congr asked,← any_selected,connections,List.any_map]
    rfl
  rw [observation_settle request headers framing observations observed]
  apply settle_congr
  · exact upgrade
  · exact connection
  · exact length
  · exact encoding
  · intro _ _ noLength noEncoding
    have web : single (fun value => (if isWebsocket value then UpgradeValue.webSocket else .other).isWebSocket)
        (values .upgrade headers.fields) = single isWebsocket (values .upgrade headers.fields) := by
      apply single_congr
      intro value _
      cases isWebsocket value <;> rfl
    dsimp only [facts] at noLength noEncoding
    dsimp only [classifyHandshake,facts]
    rw [complete_policy,connections,upgrades,versions,keys,protocols,exactlyOne_any,exactlyOne_any,exactlyOne_true,
      exactlyOne_true,optionalOne_allowed,any_either,extensions,length,encoding,noLength,noEncoding,single_congr asked,web]
    simp only [Bool.or_false,Bool.not_not]

end Observations

section Signature
open UpgradeInvariantSignature

/-- The mask of a set of kinds. -/
def maskOf (set : Kind → Bool) : UInt16 :=
  (if set .connection then bit .connection else 0) ||| (if set .upgrade then bit .upgrade else 0) |||
    (if set .version then bit .version else 0) ||| (if set .key then bit .key else 0) |||
    (if set .protocol then bit .protocol else 0) ||| (if set .extensions then bit .extensions else 0) |||
    (if set .contentLength then bit .contentLength else 0) |||
    (if set .transferEncoding then bit .transferEncoding else 0)

/-- A set of kinds from its eight members. -/
def kinds (a b c d e f g h : Bool) : Kind → Bool
  | .connection => a
  | .upgrade => b
  | .version => c
  | .key => d
  | .protocol => e
  | .extensions => f
  | .contentLength => g
  | .transferEncoding => h

theorem kinds_eta (set : Kind → Bool) :
    set = kinds (set .connection) (set .upgrade) (set .version) (set .key) (set .protocol) (set .extensions)
      (set .contentLength) (set .transferEncoding) := by
  funext kind
  cases kind <;> rfl

theorem mask_tables :
    (∀ a b c d e f g h : Bool, ∀ kind ∈ [Kind.connection,.upgrade,.version,.key,.protocol,.extensions,
      .contentLength,.transferEncoding], (maskOf (kinds a b c d e f g h) &&& bit kind == 0) = !kinds a b c d e f g h kind) ∧
    (∀ a b c d e f g h : Bool, ∀ kind ∈ [Kind.connection,.upgrade,.version,.key,.protocol,.extensions,
      .contentLength,.transferEncoding], maskOf (kinds a b c d e f g h) ||| bit kind =
        maskOf fun other => kinds a b c d e f g h other || decide (other = kind)) ∧
    (∀ a b c d e f g h : Bool,
      (maskOf (kinds a b c d e f g h) &&& requiredOnce == requiredOnce) = (a && b && c && d)) ∧
    (∀ a b c d e f g h : Bool,
      (maskOf (kinds a b c d e f g h) &&& uniqueFields == 0) = (!a && !b && !c && !d && !e)) ∧
    ∀ a b c d e f g h : Bool,
      (maskOf (kinds a b c d e f g h) &&& forbiddenFields == 0) = (!f && !g && !h) := by
  refine ⟨?_,?_,?_,?_,?_⟩ <;> decide +kernel

theorem mask_test (set : Kind → Bool) (kind : Kind) : (maskOf set &&& bit kind == 0) = !set kind := by
  rw [kinds_eta set]
  exact mask_tables.1 _ _ _ _ _ _ _ _ kind (by cases kind <;> simp)

theorem mask_insert (set : Kind → Bool) (kind : Kind) :
    maskOf set ||| bit kind = maskOf fun other => set other || decide (other = kind) := by
  rw [kinds_eta set]
  exact mask_tables.2.1 _ _ _ _ _ _ _ _ kind (by cases kind <;> simp)

theorem mask_required (set : Kind → Bool) :
    (maskOf set &&& requiredOnce == requiredOnce) = (set .connection && set .upgrade && set .version && set .key) := by
  rw [kinds_eta set]
  exact mask_tables.2.2.1 _ _ _ _ _ _ _ _

theorem mask_unique (set : Kind → Bool) :
    (maskOf set &&& uniqueFields == 0) =
      (!set .connection && !set .upgrade && !set .version && !set .key && !set .protocol) := by
  rw [kinds_eta set]
  exact mask_tables.2.2.2.1 _ _ _ _ _ _ _ _

theorem mask_forbidden (set : Kind → Bool) :
    (maskOf set &&& forbiddenFields == 0) = (!set .extensions && !set .contentLength && !set .transferEncoding) := by
  rw [kinds_eta set]
  exact mask_tables.2.2.2.2 _ _ _ _ _ _ _ _

theorem signature_intent (kind : Kind) (value : List UInt8) :
    (validateValue kind value).2 = (decide (kind = .connection) && (validateConnection value).2) := by
  cases kind <;> rfl

theorem sign_fields (fields : List HeaderField) :
    fields.foldl signField ⟨0,0,0,false⟩ =
      ⟨maskOf fun kind => !(values kind fields).isEmpty,maskOf fun kind => decide (2 ≤ (values kind fields).length),
        maskOf fun kind => (values kind fields).any fun value => !(validateValue kind value).1,
        (values .connection fields).any fun value => (validateConnection value).2⟩ := by
  induction fields using List.reverseRecOn with
  | nil => rfl
  | append_singleton fields field ih =>
    rw [List.foldl_append,ih,List.foldl_cons,List.foldl_nil]
    unfold signField
    rw [show (headerLookup.findSome? fun entry => if field.name == entry.1 then some entry.2 else none) =
      kindOf field.name from rfl]
    simp only [values_snoc]
    cases kindOf field.name with
    | none => simp
    | some kind =>
      dsimp only
      rw [mask_test,signature_intent]
      congr 1
      · cases empty : (values kind fields).isEmpty with
        | true =>
          rw [if_pos (by simp),mask_insert]
          congr 1
          funext other
          by_cases same : other = kind
          · simp [same]
          · simp [same,Ne.symm same]
        | false =>
          rw [if_neg (by simp)]
          congr 1
          funext other
          by_cases same : other = kind
          · simp [same,empty]
          · simp [Ne.symm same]
      · cases listed : values kind fields with
        | nil =>
          rw [if_pos (by simp)]
          congr 1
          funext other
          by_cases same : other = kind
          · simp [same,listed]
          · simp [Ne.symm same]
        | cons value rest =>
          rw [if_neg (by simp),mask_insert]
          congr 1
          funext other
          by_cases same : other = kind
          · simp [same,listed]
          · simp [same,Ne.symm same]
      · cases valid : (validateValue kind field.value).1 with
        | true =>
          rw [if_neg (by simp)]
          congr 1
          funext other
          by_cases same : other = kind
          · simp [same,valid]
          · simp [Ne.symm same]
        | false =>
          rw [if_pos (by simp),mask_insert]
          congr 1
          funext other
          by_cases same : other = kind
          · simp [same,valid]
          · simp [same,Ne.symm same]
      · by_cases same : kind = .connection
        · simp [same]
        · simp [same]

theorem signature_connection {value : List UInt8} (tokens : (members value).all isToken) :
    validateConnection value = (true,asksUpgrade value) := by
  have loop := connection_loop UpgradeInvariantSignature.validateFrom (fun met => (true,met))
    (fun _ => rfl)
    (fun met raw raws token => if_neg (by rw [show trimUpgradeOws raw = trim isOws raw from rfl,token_accepted token]; simp))
    false (value.splitOn 0x2c) tokens
  rw [Bool.false_or] at loop
  exact loop

theorem signature_settle (request : RequestLine) (headers : HeaderBlock) (framing : BodyFraming) :
    decideUpgrade request headers framing =
      settle ⟨(validate headers).has .upgrade,(validate headers).connectionUpgrade,
        (validate headers).has .contentLength,(validate headers).has .transferEncoding,
        isComplete (validate headers) request⟩ framing := by
  unfold decideUpgrade intentOf framingState settle
  dsimp only
  cases (validate headers).has .upgrade <;> cases (validate headers).connectionUpgrade <;>
    cases (validate headers).has .contentLength <;> cases (validate headers).has .transferEncoding <;>
    cases isComplete (validate headers) request <;> cases framing <;> rfl

theorem single_masks (passes : List UInt8 → Bool) (values : List (List UInt8)) :
    single passes values =
      (!values.isEmpty && !decide (2 ≤ values.length) && !values.any fun value => !passes value) := by
  rcases values with _ | ⟨value,_ | ⟨second,rest⟩⟩
  · rfl
  · simp [single]
  · simp [single]

theorem atMostOne_masks (passes : List UInt8 → Bool) (values : List (List UInt8)) :
    atMostOne passes values = (!decide (2 ≤ values.length) && !values.any fun value => !passes value) := by
  rcases values with _ | ⟨value,_ | ⟨second,rest⟩⟩
  · rfl
  · simp [atMostOne]
  · simp [atMostOne]

theorem signature_reference (request : RequestLine) (headers : HeaderBlock) (framing : BodyFraming)
    (clean : Clean headers.fields) : decideUpgrade request headers framing = reference request headers framing := by
  have checked : ∀ value ∈ values .connection headers.fields, validateConnection value = (true,asksUpgrade value) :=
    fun value member => signature_connection (clean value member)
  have listed : (values .connection headers.fields).any (fun value => (validateConnection value).2) =
      (values .connection headers.fields).any asksUpgrade := by
    apply any_congr
    intro value member
    rw [checked value member]
  have keys (value : List UInt8) : (validateValue .key value).1 = isKey value :=
    congrArg Option.isSome (alphabet_key (trim isOws value))
  have protocols (value : List UInt8) : (validateValue .protocol value).1 = isProtocols value :=
    trie_members (value.splitOn 0x2c)
  have signed : validate headers = _ := sign_fields headers.fields
  have has (kind : Kind) : (validate headers).has kind = !(values kind headers.fields).isEmpty := by
    unfold HeaderSignature.has
    rw [signed]
    unfold bne
    rw [mask_test,Bool.not_not]
  rw [signature_settle]
  apply settle_congr
  · exact has .upgrade
  · rw [signed]
    exact listed
  · exact has .contentLength
  · exact has .transferEncoding
  · intro _ connection noLength noEncoding
    dsimp only [facts] at noLength noEncoding connection
    have valid : ∀ value ∈ values .connection headers.fields, (validateValue .connection value).1 = true := by
      intro value member
      rw [show validateValue .connection value = validateConnection value from rfl,checked value member]
    dsimp only [isComplete,facts]
    rw [signed]
    dsimp only
    rw [mask_required,mask_unique,mask_unique,mask_forbidden,listed,connection,noLength,noEncoding,
      ← single_listed valid connection,single_masks,single_masks,single_masks,single_masks,atMostOne_masks]
    simp only [keys,protocols]
    rw [show (fun value => !(validateValue .upgrade value).1) = fun value => !isWebsocket value from rfl,
      show (fun value => !(validateValue .version value).1) = fun value => !isVersion13 value from rfl]
    simp only [Bool.not_false,Bool.not_not,Bool.and_true]
    ac_rfl

end Signature
theorem refines_reference (upgrade : RequestLine → HeaderBlock → BodyFraming → Result UpgradeDecision)
    (registered : upgrade ∈ upgradeImplementations) (request : RequestLine) (headers : HeaderBlock) (framing : BodyFraming)
    (clean : Clean headers.fields) : upgrade request headers framing = reference request headers framing := by
  simp only [upgradeImplementations,List.mem_cons,List.not_mem_nil,or_false] at registered
  rcases registered with rfl | rfl | rfl | rfl | rfl
  · exact composable_reference request headers framing clean
  · exact signature_reference request headers framing clean
  · exact observation_reference request headers framing clean
  · exact obligation_reference request headers framing clean
  · exact matrix_reference request headers framing clean

theorem clean_of_accepted {headers : HeaderBlock} {sanitized : SanitizedHeaders}
    (accepted : HopByHopAgreement.reference headers = .ok sanitized) : Clean headers.fields := by
  obtain ⟨sound,-⟩ := (reference_ok headers sanitized).mp accepted
  intro value member
  obtain ⟨field,listed,rfl⟩ := List.mem_map.mp member
  obtain ⟨present,same⟩ := List.mem_filter.mp listed
  by_contra faulty
  refine sound field present ((broken_iff field).mp ?_)
  rw [Bool.not_eq_true] at faulty
  rw [broken,faulty]
  exact (Bool.and_true _).trans same

/-- The word is a member of a connection value. -/
def Asks (value : List UInt8) : Prop := ∃ member ∈ members value, eqIgnoreAsciiCase member (ascii "upgrade")

/-- One side asks for an upgrade. -/
def Intended (fields : List HeaderField) : Prop :=
  values .upgrade fields ≠ [] ∨ ∃ value ∈ values .connection fields, Asks value

/-- Both framing fields are there. -/
def Ambiguous (fields : List HeaderField) : Prop :=
  values .contentLength fields ≠ [] ∧ values .transferEncoding fields ≠ []

structure Handshake (request : RequestLine) (fields : List HeaderField) (framing : BodyFraming) : Prop where
  method : request.method = ascii "get"
  target : request.target.head? = some 0x2f ∨ opensWith request.target (ascii "http://") ∨
    opensWith request.target (ascii "https://")
  unframed : framing = .none
  noLength : values .contentLength fields = []
  noEncoding : values .transferEncoding fields = []
  noExtensions : values .extensions fields = []
  connection : ∃ value, values .connection fields = [value] ∧ Asks value
  upgrade : ∃ value, values .upgrade fields = [value] ∧ eqIgnoreAsciiCase (trim isOws value) (ascii "websocket")
  version : ∃ value, values .version fields = [value] ∧ trim isOws value = ascii "13"
  key : ∃ value, values .key fields = [value] ∧ CanonicalKey (trim isOws value)
  protocol : values .protocol fields = [] ∨ ∃ value, values .protocol fields = [value] ∧
    (∀ member ∈ members value, isToken member) ∧ (members value).Nodup

theorem asks_iff (value : List UInt8) : asksUpgrade value ↔ Asks value := List.any_eq_true

theorem single_iff (passes : List UInt8 → Bool) (values : List (List UInt8)) :
    single passes values ↔ ∃ value, values = [value] ∧ passes value := by
  rcases values with _ | ⟨value,_ | ⟨second,rest⟩⟩
  · simp [single]
  · simp [single]
  · simp [single]

theorem protocols_iff (value : List UInt8) :
    isProtocols value ↔ (∀ member ∈ members value, isToken member) ∧ (members value).Nodup := by
  unfold isProtocols distinctTokens
  rw [Bool.and_eq_true,List.all_eq_true,decide_eq_true_eq]

theorem intended_iff (request : RequestLine) (fields : List HeaderField) :
    (!(facts request fields).upgrade && !(facts request fields).connection) = true ↔ ¬ Intended fields := by
  unfold Intended facts
  rw [Bool.and_eq_true,Bool.not_not,List.isEmpty_iff,Bool.not_eq_true',List.any_eq_false,not_or,not_not]
  simp only [asks_iff,not_exists,not_and]

theorem ambiguous_iff (request : RequestLine) (fields : List HeaderField) :
    ((facts request fields).contentLength && (facts request fields).transferEncoding) = true ↔ Ambiguous fields := by
  unfold Ambiguous facts
  rw [Bool.and_eq_true,Bool.not_eq_true',Bool.not_eq_true',List.isEmpty_eq_false_iff,List.isEmpty_eq_false_iff]

theorem handshake_iff (request : RequestLine) (fields : List HeaderField) (framing : BodyFraming) :
    ((facts request fields).upgrade && (facts request fields).connection && (facts request fields).handshake &&
      !(facts request fields).contentLength && !(facts request fields).transferEncoding && decide (framing = .none)) = true ↔
      Handshake request fields framing := by
  have key (value : List UInt8) : isKey value ↔ CanonicalKey (trim isOws value) := decodeKey_isSome _
  have version (value : List UInt8) : isVersion13 value ↔ trim isOws value = ascii "13" := beq_iff_eq
  unfold facts
  simp only [Bool.and_eq_true,Bool.not_not,Bool.not_eq_true',List.isEmpty_iff,List.isEmpty_eq_false_iff,
    decide_eq_true_eq,atMostOne_eq,Bool.or_eq_true,single_iff,isOriginOrAbsolute,beq_iff_eq,asks_iff,key,version,
    protocols_iff,List.any_eq_true]
  constructor
  · intro settled
    obtain ⟨⟨⟨⟨-,handshake⟩,length⟩,encoding⟩,unframed⟩ := settled
    obtain ⟨⟨⟨⟨⟨⟨⟨connection,upgrade⟩,version⟩,key⟩,protocol⟩,extensions⟩,method⟩,target⟩ := handshake
    exact ⟨method,or_assoc.mp target,unframed,length,encoding,extensions,connection,upgrade,version,key,protocol⟩
  · rintro ⟨method,target,unframed,length,encoding,extensions,connection,upgrade,version,key,protocol⟩
    have asked : values .upgrade fields ≠ [] := by
      obtain ⟨value,one,-⟩ := upgrade
      simp [one]
    have listed : ∃ value ∈ values .connection fields, Asks value := by
      obtain ⟨value,one,asks⟩ := connection
      exact ⟨value,by simp [one],asks⟩
    exact ⟨⟨⟨⟨⟨asked,listed⟩,⟨⟨⟨⟨⟨⟨connection,upgrade⟩,version⟩,key⟩,protocol⟩,extensions⟩,method⟩,or_assoc.mpr target⟩,
      length⟩,encoding⟩,unframed⟩

theorem reference_outcomes (request : RequestLine) (headers : HeaderBlock) (framing : BodyFraming) :
    (reference request headers framing = .ok .none ↔ ¬ Intended headers.fields) ∧
      (reference request headers framing = .error .ambiguousFraming ↔
        Intended headers.fields ∧ Ambiguous headers.fields) ∧
      (reference request headers framing = .ok .webSocket ↔
        Intended headers.fields ∧ ¬ Ambiguous headers.fields ∧ Handshake request headers.fields framing) ∧
      (reference request headers framing = .error .unsupportedUpgrade ↔
        Intended headers.fields ∧ ¬ Ambiguous headers.fields ∧ ¬ Handshake request headers.fields framing) := by
  have intended := intended_iff request headers.fields
  have ambiguous := ambiguous_iff request headers.fields
  have shaken := handshake_iff request headers.fields framing
  unfold reference settle ambiguousFraming unsupportedUpgrade
  split
  · rename_i absent
    simp [intended.mp absent]
  · rename_i present
    rw [intended,not_not] at present
    split
    · rename_i both
      simp [present,ambiguous.mp both]
    · rename_i one
      rw [ambiguous] at one
      split
      · rename_i complete
        simp [present,one,shaken.mp complete]
      · rename_i incomplete
        rw [shaken] at incomplete
        simp [present,one,incomplete]

/-- The values of the fields whose name is one of the eight in any case. -/
def valuesAnyCase (kind : Kind) (fields : List HeaderField) : List (List UInt8) :=
  (fields.filter (eqIgnoreAsciiCase ·.name (fieldName kind))).map (·.value)

theorem lowered_fieldName (kind : Kind) : lowered (fieldName kind) = fieldName kind := by
  cases kind <;> decide

theorem values_canonical {fields : List HeaderField} (canonical : ∀ field ∈ fields, lowered field.name = field.name)
    (kind : Kind) : values kind fields = valuesAnyCase kind fields := by
  unfold values valuesAnyCase
  congr 1
  apply List.filter_congr
  intro field member
  rw [Bool.eq_iff_iff,beq_iff_eq,eqIgnoreAsciiCase_iff]
  have left := canonical field member
  have right := lowered_fieldName kind
  unfold lowered at left right
  rw [left,right]

/-- On the fields that hop-by-hop removal accepts, the implementations agree: no upgrade unless one side asks for it,
ambiguous framing before anything else, and then a handshake or nothing that is supported. -/
theorem upgrade_agreement (request : RequestLine) (headers : HeaderBlock) (framing : BodyFraming)
    (remove : HeaderBlock → Result SanitizedHeaders) (registered : remove ∈ hopByHopImplementations)
    (sanitized : SanitizedHeaders) (accepted : remove headers = .ok sanitized) :
    (∀ f ∈ upgradeImplementations, ∀ g ∈ upgradeImplementations, f request headers framing = g request headers framing) ∧
      (∀ upgrade ∈ upgradeImplementations,
        (upgrade request headers framing = .ok .none ↔ ¬ Intended headers.fields) ∧
        (upgrade request headers framing = .error .ambiguousFraming ↔
          Intended headers.fields ∧ Ambiguous headers.fields) ∧
        (upgrade request headers framing = .ok .webSocket ↔
          Intended headers.fields ∧ ¬ Ambiguous headers.fields ∧ Handshake request headers.fields framing) ∧
        (upgrade request headers framing = .error .unsupportedUpgrade ↔
          Intended headers.fields ∧ ¬ Ambiguous headers.fields ∧ ¬ Handshake request headers.fields framing)) ∧
      ((∀ field ∈ headers.fields, lowered field.name = field.name) →
        ∀ kind, values kind headers.fields = valuesAnyCase kind headers.fields) := by
  rw [HopByHopAgreement.refines_reference remove registered] at accepted
  have clean := clean_of_accepted accepted
  refine ⟨?_,?_,values_canonical⟩
  · intro f fMember g gMember
    rw [refines_reference f fMember request headers framing clean,refines_reference g gMember request headers framing clean]
  · intro upgrade member
    rw [refines_reference upgrade member request headers framing clean]
    exact reference_outcomes request headers framing

/-- A handshake with blanks, another connection member and words in mixed case. -/
def sampleHandshake : HeaderBlock :=
  ⟨[⟨ascii "host",ascii "example.test"⟩,⟨ascii "connection",ascii "keep-alive, Upgrade"⟩,
    ⟨ascii "upgrade",ascii " WebSocket"⟩,⟨ascii "sec-websocket-version",ascii "13"⟩,
    ⟨ascii "sec-websocket-key",ascii "dGhlIHNhbXBsZSBub25jZQ=="⟩],0⟩

theorem upgrade_agreement_sample :
    UpgradeTransformationMatrix.decideUpgrade ⟨ascii "get",ascii "/chat",.http11,0⟩ sampleHandshake .none = .ok .webSocket ∧
      Handshake ⟨ascii "get",ascii "/chat",.http11,0⟩ sampleHandshake.fields .none := by
  have settled : UpgradeTransformationMatrix.decideUpgrade ⟨ascii "get",ascii "/chat",.http11,0⟩ sampleHandshake .none =
      .ok .webSocket := by decide +kernel
  have outcomes := upgrade_agreement ⟨ascii "get",ascii "/chat",.http11,0⟩ sampleHandshake .none
    HopByHopRuleTable.removeHopByHopHeaders (by simp [hopByHopImplementations])
    ⟨[⟨ascii "host",ascii "example.test"⟩,⟨ascii "sec-websocket-version",ascii "13"⟩,
      ⟨ascii "sec-websocket-key",ascii "dGhlIHNhbXBsZSBub25jZQ=="⟩],
      [ascii "connection",ascii "keep-alive",ascii "upgrade"]⟩ (by decide +kernel)
  have outcome := outcomes.2.1 UpgradeTransformationMatrix.decideUpgrade (by simp [upgradeImplementations])
  exact ⟨settled,(outcome.2.2.1.mp settled).2.2⟩

end Polyguard.UpgradeAgreement
