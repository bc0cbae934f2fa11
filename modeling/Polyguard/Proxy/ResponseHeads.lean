import Polyguard.Header.Agreement
import Polyguard.HopByHop.Agreement
import Polyguard.Proxy.Blame
import Polyguard.Proxy.Bodiless
import Polyguard.Proxy.ConfiguredHeaders

/-! The heads of proxied responses.
Fields come from the upstream, from the configuration and from the gzip stage, and each
source is filtered by a list of its own. The head that they make is cut into lines in one
way only, with the fields of the proxy itself among them once. -/
namespace Polyguard.Proxy
open Ascii Slices Decimal HeaderFraming HeaderAgreement CanonicalHead

section Lines

/-- A field that takes one line, with a name in small letters before the first colon. -/
structure PlainField (field : HeaderField) : Prop where
  filled : field.name ≠ []
  lower : field.name.map toAsciiLowercase = field.name
  line : OneLine field

/-- The names of the fields that the proxy makes, and the texts that it puts into its heads. -/
def ownNames : List String :=
  ["server","content-type","content-length","connection","content-encoding","vary","accept-ranges"]

def ownTexts : List String :=
  ["HTTP/1.1 ","polyguard/0.3.10","keep-alive","close",", Accept-Encoding","Accept-Encoding","gzip","bytes"]

theorem text_inner {text : List UInt8} (checked : text.all fun b => b != 0x0d && b != 0x0a) : ∀ b ∈ text, Inner b := by
  intro b member
  have kept := List.all_eq_true.mp checked b member
  rw [Bool.and_eq_true,bne_iff_ne,bne_iff_ne] at kept
  exact kept

theorem ownTexts_inner : ∀ text ∈ ownTexts, ∀ b ∈ ascii text, Inner b := by
  have checked : ∀ text ∈ ownTexts, (ascii text).all fun b => b != 0x0d && b != 0x0a := by decide +kernel
  exact fun text listed => text_inner (checked text listed)

theorem own_plain {name : String} (listed : name ∈ ownNames) {value : List UInt8} (inner : ∀ b ∈ value, Inner b) :
    PlainField ⟨ascii name,value⟩ := by
  have tokens : ∀ name ∈ ownNames, ascii name ≠ [] ∧ (ascii name).map toAsciiLowercase = ascii name ∧
      (ascii name).all isTchar := by decide +kernel
  obtain ⟨filled,lower,token⟩ := tokens name listed
  exact ⟨filled,lower,List.all_eq_true.mp token,inner⟩

def statusLine (status : Nat) (reason : List UInt8) : List UInt8 := ascii "HTTP/1.1 " ++ (decimal status ++ 0x20 :: reason)

/-- A response head: a status line, the fields on a line each, and an empty line. -/
structure FormedHead (bytes : List UInt8) (status : Nat) (reason : List UInt8) (fields : List HeaderField) : Prop where
  written : bytes = wireHead (statusLine status reason) fields
  reason : ∀ b ∈ reason, Inner b
  fields : ∀ field ∈ fields, PlainField field

theorem statusLine_whole {status : Nat} {reason : List UInt8} (inner : ∀ b ∈ reason, Inner b) : Whole (statusLine status reason) := by
  have digit := forall_byte (p := fun b => isAsciiDigit b → b ≠ 0x0d ∧ b ≠ 0x0a) (by decide)
  refine ⟨by simp [statusLine],?_⟩
  intro b member
  rcases List.mem_append.mp member with front | member
  · exact ownTexts_inner _ (by simp [ownTexts]) b front
  · rcases List.mem_append.mp member with number | member
    · exact digit b (decimal_digits status b number)
    · rcases List.mem_cons.mp member with rfl | text
      · exact isValueByte_inner (by decide)
      · exact inner b text

/-- The fields of a head can be told from its bytes, whatever follows them. -/
theorem formedHead_unique {left right leftRest rightRest : List UInt8} {status other : Nat} {reason text : List UInt8}
    {fields others : List HeaderField} (formed : FormedHead left status reason fields) (another : FormedHead right other text others)
    (same : left ++ leftRest = right ++ rightRest) : fields = others := by
  rw [formed.written,another.written] at same
  exact (wireHead_unique (statusLine_whole formed.reason) (statusLine_whole another.reason)
    (fun field member => (formed.fields field member).line) (fun field member => (another.fields field member).line) same).2

end Lines

section Sources
variable {context : TemplateContext}

theorem accepted_plain {input : List UInt8} {block : HeaderBlock} (accepted : Accepted input block) :
    ∀ field ∈ block.fields, PlainField field := by
  have lowered := forall_byte (p := fun b => isTchar b → isTchar (toAsciiLowercase b)) (by decide)
  have again := forall_byte (p := fun b => toAsciiLowercase (toAsciiLowercase b) = toAsciiLowercase b) (by decide)
  obtain ⟨lines,_,-,-,-,-,fields⟩ := accepted
  intro field member
  rw [fields] at member
  obtain ⟨line,-,rfl⟩ := List.mem_map.mp member
  obtain ⟨filled,-,tokens⟩ := line.named
  refine ⟨fun empty => filled (List.map_eq_nil_iff.mp empty),?_,fun b inside => ?_,fun b inside => ?_⟩
  · rw [FieldLine.field,List.map_map]
    exact List.map_congr_left fun b _ => again b
  · obtain ⟨byte,among,rfl⟩ := List.mem_map.mp inside
    exact lowered byte (tokens byte among)
  · exact isValueByte_inner (line.valued.2 b inside)

theorem reference_survivors {headers : HeaderBlock} {sanitized : SanitizedHeaders}
    (ok : HopByHopAgreement.reference headers = .ok sanitized) :
    ∀ field ∈ sanitized.fields, field ∈ headers.fields ∧ field.name ≠ ascii "connection" := by
  obtain ⟨-,rfl⟩ := (HopByHopAgreement.reference_ok headers sanitized).mp ok
  intro field member
  dsimp only at member
  rw [HopByHopAgreement.survivors_eq] at member
  obtain ⟨among,kept⟩ := List.mem_filter.mp member
  refine ⟨among,fun same => (of_decide_eq_true kept).1 ?_⟩
  rw [same]
  decide +kernel

theorem renderTemplate_inner {value text : List UInt8} {max : Nat} (rendered : renderTemplate value context max = .ok text) :
    ∀ b ∈ text, Inner b := by
  obtain ⟨_,-,rendered⟩ := Fallible.bind_iff.mp rendered
  obtain ⟨written,-,rendered⟩ := Fallible.bind_iff.mp rendered
  obtain ⟨clean,same⟩ := Fallible.unless_iff.mp rendered
  cases same
  rw [Bool.not_eq_true,List.any_eq_false] at clean
  intro b member
  have allowed := clean b member
  simp only [Bool.or_eq_true,beq_iff_eq,not_or] at allowed
  exact ⟨allowed.1.1,allowed.1.2⟩

theorem renderHeaders_sets {headers : List HeaderValueConfig} {fields : List HeaderField}
    (rendered : renderHeaders context headers = .ok fields) : List.Forall₂ (Sets context) headers fields := by
  induction headers generalizing fields with
  | nil =>
    cases rendered
    exact .nil
  | cons header headers ih =>
    obtain ⟨value,first,rendered⟩ := Fallible.bind_iff.mp rendered
    obtain ⟨others,rest,same⟩ := Fallible.bind_iff.mp rendered
    cases same
    exact .cons ⟨rfl,first⟩ (ih rest)

theorem sets_source {headers : List HeaderValueConfig} {fields : List HeaderField} (sets : List.Forall₂ (Sets context) headers fields) :
    ∀ field ∈ fields, ∃ header ∈ headers, Sets context header field := by
  induction sets with
  | nil => simp
  | cons first sets ih =>
    intro field member
    rcases List.mem_cons.mp member with rfl | later
    · exact ⟨_,List.mem_cons_self,first⟩
    · obtain ⟨header,among,set⟩ := ih field later
      exact ⟨header,List.mem_cons_of_mem _ among,set⟩

/-- A header that the configuration may add to a response. -/
def Settable (header : HeaderValueConfig) : Prop :=
  validHeaderName header.name ∧ responseManagedHeaders.contains header.name = false

theorem accepted_settable {headers : List HeaderValueConfig} (accepted : AcceptedHeaders true headers) :
    ∀ header ∈ headers, Settable header :=
  fun header member => ⟨accepted.named header member,accepted.unmanaged header member⟩

theorem validHeaderName_token {name : List UInt8} (valid : validHeaderName name) :
    name ≠ [] ∧ name.map toAsciiLowercase = name ∧ ∀ b ∈ name, isTchar b := by
  have lower := forall_byte (p := fun b => (!isAsciiUppercase b) = true → toAsciiLowercase b = b) (by decide)
  simp only [validHeaderName,validMethod,Bool.and_eq_true,Bool.not_eq_true',decide_eq_true_eq] at valid
  obtain ⟨⟨⟨filled,-⟩,tokens⟩,small⟩ := valid
  refine ⟨fun empty => ?_,?_,List.all_eq_true.mp tokens⟩
  · rw [empty] at filled
    cases filled
  · exact (List.map_congr_left fun b member => lower b (List.all_eq_true.mp small b member)).trans (List.map_id name)

/-- A header of a list that the validation accepts for responses. -/
def ValidatedHeader (header : HeaderValueConfig) : Prop :=
  ∃ label headers, header ∈ headers ∧ validateHeaderValues label headers true = .ok ()

theorem ValidatedHeader.settable {header : HeaderValueConfig} (accepted : ValidatedHeader header) : Settable header := by
  obtain ⟨label,headers,member,ok⟩ := accepted
  exact accepted_settable (validateHeaderValues_ok ok) header member

theorem configured_plain {configured : List HeaderValueConfig} {method : List UInt8} {status : Nat} {fields : List HeaderField}
    (settable : ∀ header ∈ configured, Settable header)
    (rendered : renderResponseHeaders configured context method status = .ok fields) :
    ∀ field ∈ fields, PlainField field ∧ responseManagedHeaders.contains field.name = false := by
  intro field member
  obtain ⟨header,among,named,text⟩ := sets_source (renderHeaders_sets rendered) field member
  obtain ⟨valid,unmanaged⟩ := settable header (List.mem_of_mem_filter among)
  obtain ⟨filled,small,tokens⟩ := validHeaderName_token valid
  exact ⟨⟨named ▸ filled,named ▸ small,named ▸ tokens,renderTemplate_inner text⟩,named ▸ unmanaged⟩

end Sources

section Gzip

def gzipField : HeaderField := ⟨ascii "content-encoding",ascii "gzip"⟩

/-- What holds of the fields, of a new `vary` field and of an extended one holds of all that are sent. -/
theorem addVary_forall {p : HeaderField → Prop} {fields : List HeaderField} (each : ∀ field ∈ fields, p field)
    (fresh : p ⟨ascii "vary",ascii "Accept-Encoding"⟩)
    (extended : ∀ field ∈ fields, p { field with value := field.value ++ ascii ", Accept-Encoding" }) :
    ∀ field ∈ addVary fields, p field := by
  induction fields with
  | nil => exact List.forall_mem_singleton.mpr fresh
  | cons field fields ih =>
    obtain ⟨first,each⟩ := List.forall_mem_cons.mp each
    obtain ⟨longer,extended⟩ := List.forall_mem_cons.mp extended
    unfold addVary
    split
    · split
      · exact List.forall_mem_cons.mpr ⟨first,each⟩
      · exact List.forall_mem_cons.mpr ⟨longer,each⟩
    · exact List.forall_mem_cons.mpr ⟨first,ih each extended⟩

theorem gzipBodyAccounted_some {runtime : Runtime} {accepted : Bool} {contentType body written : List UInt8} {account covered : Account}
    (zipped : gzipBodyAccounted runtime accepted contentType body account = .ok (some written,covered)) :
    runtime.encode body = some written := by
  unfold gzipBodyAccounted at zipped
  split at zipped
  · cases zipped
  · split at zipped
    · cases zipped
    · split at zipped
      · cases zipped
      · split at zipped
        · cases zipped
        · cases zipped
        · rename_i made
          split at zipped
          · cases zipped
          · split at zipped
            · cases zipped
              unfold gzipBody at made
              split at made
              · cases made
              · split at made
                · rename_i encoded
                  cases made
                  exact encoded
                · cases made
            · cases zipped

theorem compressResponse_ok {runtime : Runtime} {acceptsGzip : Bool} {fields sent : List HeaderField} {body written : List UInt8}
    {account covered : Account} (ok : compressResponse runtime acceptsGzip fields body account = .ok (sent,written,covered)) :
    (sent = fields ∧ written = body) ∨
      (¬ isEncoded fields ∧ runtime.encode body = some written ∧ sent = addVary (fields ++ [gzipField])) := by
  unfold compressResponse at ok
  split at ok
  · cases ok
    exact .inl ⟨rfl,rfl⟩
  · rename_i plain
    split at ok
    · cases ok
      exact .inl ⟨rfl,rfl⟩
    · split at ok
      · cases ok
      · cases ok
        exact .inl ⟨rfl,rfl⟩
      · rename_i zipped
        cases ok
        exact .inr ⟨plain,gzipBodyAccounted_some zipped,rfl⟩

end Gzip

section Serializer

def serverField : HeaderField := ⟨ascii "server",ascii "polyguard/0.3.10"⟩

def lengthField (length : Nat) : HeaderField := ⟨ascii "content-length",decimal length⟩

def connectionField (keepAlive : Bool) : HeaderField := ⟨ascii "connection",if keepAlive then ascii "keep-alive" else ascii "close"⟩

/-- The fields of a response head in their order. -/
def responseFields (fields : List HeaderField) (bodyLength : Nat) (keepAlive : Bool) : List HeaderField :=
  serverField :: ((fields.filter fun field => !isManaged field.name) ++ [lengthField bodyLength,connectionField keepAlive])

/-- A field that the proxy does not set itself. -/
def passesOn (field : HeaderField) : Bool := !responseManagedHeaders.contains field.name

/-- The fields that the proxy sets itself stand in a head once, and no transfer coding does. -/
structure OwnLines (fields : List HeaderField) (bodyLength : Nat) (keepAlive : Bool) : Prop where
  server : (fields.filter fun field => field.name == ascii "server") = [serverField]
  length : (fields.filter fun field => field.name == ascii "content-length") = [lengthField bodyLength]
  connection : (fields.filter fun field => field.name == ascii "connection") = [connectionField keepAlive]
  transfer : (fields.filter fun field => field.name == ascii "transfer-encoding") = []

variable {fields : List HeaderField} {bodyLength : Nat} {keepAlive : Bool}

theorem serializeField_line (field : HeaderField) : serializeField field = fieldLine field ++ [0x0d,0x0a] := by
  simp [serializeField,fieldLine,text_colon]

theorem written_labels : serverHeader = fieldLine serverField ++ [0x0d,0x0a] ∧ ascii "content-type: " = ascii "content-type" ++ [0x3a,0x20] ∧
    ascii "content-length: " = ascii "content-length" ++ [0x3a,0x20] ∧ ascii "connection: " = ascii "connection" ++ [0x3a,0x20] := by
  decide +kernel

theorem serializeResponseHead_lines (status : Nat) (reason : List UInt8) (fields : List HeaderField) (bodyLength : Nat) (keepAlive : Bool) :
    serializeResponseHead status reason fields bodyLength keepAlive =
      wireHead (statusLine status reason) (responseFields fields bodyLength keepAlive) := by
  obtain ⟨server,-,length,connection⟩ := written_labels
  have each : serializeField = fun field => fieldLine field ++ [0x0d,0x0a] := funext serializeField_line
  have closing : (if keepAlive then ascii "keep-alive" else ascii "close") = (connectionField keepAlive).value := rfl
  rw [serializeResponseHead,server,length,connection,each,closing,wireHead,responseFields]
  simp only [wire,statusLine,fieldLine,lengthField,connectionField,List.map_cons,List.map_append,List.map_nil,List.flatMap_cons,
    List.flatMap_append,List.flatMap_nil,List.flatMap_map,List.append_assoc,List.cons_append,List.nil_append]

theorem managed_names (name : List UInt8) : responseManagedHeaders.contains name = (isManaged name || name == ascii "connection") := by
  rw [Bool.eq_iff_iff,List.contains_iff_mem]
  simp only [responseManagedHeaders,isManaged,List.mem_cons,List.not_mem_nil,or_false,Bool.or_eq_true,beq_iff_eq]
  tauto

theorem passesOn_eq (field : HeaderField) : passesOn field = (!isManaged field.name && !(field.name == ascii "connection")) := by
  rw [passesOn,managed_names,Bool.not_or]

theorem responseFields_filter (keep : HeaderField → Bool) : (responseFields fields bodyLength keepAlive).filter keep =
    [serverField].filter keep ++ (fields.filter fun field => keep field && !isManaged field.name) ++
      [lengthField bodyLength,connectionField keepAlive].filter keep := by
  rw [responseFields,← List.singleton_append,List.filter_append,List.filter_append,List.filter_filter,List.append_assoc]

theorem responseFields_others (free : ∀ field ∈ fields, field.name ≠ ascii "connection") :
    (responseFields fields bodyLength keepAlive).filter passesOn = fields.filter passesOn := by
  have stopped {name : List UInt8} (managed : name ∈ responseManagedHeaders) (value : List UInt8) : passesOn ⟨name,value⟩ = false := by
    rw [passesOn,List.contains_iff_mem.mpr managed]
    rfl
  have server : [serverField].filter passesOn = [] :=
    List.filter_cons_of_neg (Bool.not_eq_true _ ▸ stopped (by simp [responseManagedHeaders]) _)
  have closing : [lengthField bodyLength,connectionField keepAlive].filter passesOn = [] := by
    have length : passesOn (lengthField bodyLength) = false := stopped (by simp [responseManagedHeaders]) _
    have connection : passesOn (connectionField keepAlive) = false := stopped (by simp [responseManagedHeaders]) _
    simp only [List.filter_cons,List.filter_nil,length,connection,Bool.false_eq_true,if_false]
  rw [responseFields_filter,server,closing,List.nil_append,List.append_nil]
  apply List.filter_congr
  intro field member
  rw [passesOn_eq,beq_eq_false_iff_ne.mpr (free field member)]
  cases isManaged field.name <;> rfl

theorem responseFields_own (free : ∀ field ∈ fields, field.name ≠ ascii "connection") :
    OwnLines (responseFields fields bodyLength keepAlive) bodyLength keepAlive := by
  have named {name : List UInt8} (managed : isManaged name) :
      (fields.filter fun field => field.name == name && !isManaged field.name) = [] := by
    apply List.filter_eq_nil_iff.mpr
    intro field _ kept
    rw [Bool.and_eq_true,beq_iff_eq] at kept
    rw [kept.1,managed] at kept
    exact absurd kept.2 (by decide)
  have apart : (fields.filter fun field => field.name == ascii "connection" && !isManaged field.name) = [] := by
    apply List.filter_eq_nil_iff.mpr
    intro field member kept
    rw [Bool.and_eq_true,beq_iff_eq] at kept
    exact free field member kept.1
  constructor
  · rw [responseFields_filter,named (by simp [isManaged])]
    rfl
  · rw [responseFields_filter,named (by simp [isManaged])]
    rfl
  · rw [responseFields_filter,apart]
    rfl
  · rw [responseFields_filter,named (by simp [isManaged])]
    rfl

theorem ownFields_plain (bodyLength : Nat) (keepAlive : Bool) :
    PlainField serverField ∧ ∀ field ∈ [lengthField bodyLength,connectionField keepAlive], PlainField field := by
  have digit := forall_byte (p := fun b => isAsciiDigit b → b ≠ 0x0d ∧ b ≠ 0x0a) (by decide)
  refine ⟨own_plain (by simp [ownNames]) (ownTexts_inner _ (by simp [ownTexts])),
    List.forall_mem_cons.mpr ⟨?_,List.forall_mem_singleton.mpr ?_⟩⟩
  · exact own_plain (by simp [ownNames]) fun b inside => digit b (decimal_digits bodyLength b inside)
  · apply own_plain (by simp [ownNames])
    cases keepAlive with
    | true => exact ownTexts_inner _ (by simp [ownTexts])
    | false => exact ownTexts_inner _ (by simp [ownTexts])

theorem responseFields_plain (lines : ∀ field ∈ fields, PlainField field) :
    ∀ field ∈ responseFields fields bodyLength keepAlive, PlainField field := by
  obtain ⟨server,closing⟩ := ownFields_plain bodyLength keepAlive
  intro field member
  rcases List.mem_cons.mp member with rfl | member
  · exact server
  · rcases List.mem_append.mp member with kept | own
    · exact lines field (List.mem_of_mem_filter kept)
    · exact closing field own

theorem serialized_formed {status : Nat} {reason : List UInt8} (inner : ∀ b ∈ reason, Inner b)
    (lines : ∀ field ∈ fields, PlainField field) :
    FormedHead (serializeResponseHead status reason fields bodyLength keepAlive) status reason (responseFields fields bodyLength keepAlive) := by
  exact ⟨serializeResponseHead_lines status reason fields bodyLength keepAlive,inner,responseFields_plain lines⟩

theorem addVary_plain {survivors : List HeaderField}
    (lines : ∀ field ∈ survivors, PlainField field ∧ field.name ≠ ascii "connection") :
    ∀ field ∈ addVary (survivors ++ [gzipField]), PlainField field ∧ field.name ≠ ascii "connection" := by
  have others : ascii "content-encoding" ≠ ascii "connection" ∧ ascii "vary" ≠ ascii "connection" := by decide +kernel
  have all : ∀ field ∈ survivors ++ [gzipField], PlainField field ∧ field.name ≠ ascii "connection" := by
    intro field member
    rcases List.mem_append.mp member with survived | labelled
    · exact lines field survived
    · obtain rfl := List.mem_singleton.mp labelled
      exact ⟨own_plain (by simp [ownNames]) (ownTexts_inner _ (by simp [ownTexts])),others.1⟩
  apply addVary_forall all
  · exact ⟨own_plain (by simp [ownNames]) (ownTexts_inner _ (by simp [ownTexts])),others.2⟩
  · intro field member
    obtain ⟨plain,other⟩ := all field member
    refine ⟨⟨plain.filled,plain.lower,plain.line.named,fun b inside => ?_⟩,other⟩
    rcases List.mem_append.mp inside with former | latter
    · exact plain.line.inner b former
    · exact ownTexts_inner _ (by simp [ownTexts]) b latter

end Serializer

section Run
variable {runtime : Runtime} {exchange : UpstreamExchange}

theorem agreed_ok {α : Type} {result : Result α} {value : α} (ok : agreed result = .ok value) : result = .ok value := by
  cases result with
  | ok found =>
    cases ok
    rfl
  | error error => cases ok

theorem parseStatusLine_inner {head reason : List UInt8} {status offset : Nat} (ok : parseStatusLine head = .ok (status,reason,offset)) :
    ∀ b ∈ reason, Inner b := by
  have apart := forall_byte (p := fun b => isReasonByte b → b ≠ 0x0d ∧ b ≠ 0x0a) (by decide)
  unfold parseStatusLine at ok
  split at ok
  · cases ok
  · split at ok
    · cases ok
    · dsimp only at ok
      split at ok
      · cases ok
      · split at ok
        · cases ok
        · rename_i clean
          cases ok
          simp only [Bool.or_eq_true,Bool.not_eq_true',not_or,Bool.not_eq_false] at clean
          exact fun b member => apart b (List.all_eq_true.mp clean.2 b member)

/-- The parts that a response head was read from. -/
structure HeadParts (runtime : Runtime) (exchange : UpstreamExchange) (head : List UInt8) (parsed : ResponseHead)
    (sanitized : SanitizedHeaders) (configured : List HeaderField) : Prop where
  started : ∃ offset, parseStatusLine head = .ok (parsed.status,parsed.reason,offset) ∧
    runtime.protocol.parseHeaderSection (head.drop offset) = .ok parsed.headers
  removed : runtime.protocol.removeHopByHopHeaders parsed.headers = .ok sanitized
  rendered : renderResponseHeaders exchange.configuredResponseHeaders exchange.templateContext exchange.method parsed.status = .ok configured
  fields : parsed.sanitized.fields = sanitized.fields ++ configured

theorem parseResponseHead_parts {head remainder : List UInt8} {parsed : ResponseHead}
    (ok : parseResponseHead runtime exchange head remainder = .ok parsed) :
    ∃ sanitized configured, HeadParts runtime exchange head parsed sanitized configured := by
  obtain ⟨⟨status,reason,offset⟩,started,ok⟩ := Fallible.bind_iff.mp ok
  obtain ⟨-,ok⟩ := Fallible.unless_iff.mp ok
  obtain ⟨headers,sectioned,ok⟩ := Fallible.bind_iff.mp ok
  obtain ⟨-,ok⟩ := Fallible.unless_iff.mp ok
  obtain ⟨sanitized,removed,ok⟩ := Fallible.bind_iff.mp ok
  obtain ⟨configured,rendered,ok⟩ := Fallible.bind_iff.mp ok
  cases ok
  exact ⟨sanitized,configured,⟨offset,started,agreed_ok sectioned⟩,agreed_ok removed,rendered,rfl⟩

/-- The stages of an exchange that returned a response: the head that was read, the body that followed it, and what the gzip stage made
of both. -/
structure Stages (runtime : Runtime) (exchange : UpstreamExchange) (response : UpstreamResponse) (head received : List UInt8)
    (parsed : ResponseHead) (sent : List HeaderField) : Prop where
  read : ∃ remainder stream, readHead exchange.upstream.sends runtime.limits.maxResponseHeaderBytes = (.ok (head,remainder),stream) ∧
    parseResponseHead runtime exchange head remainder = .ok parsed
  body : ∃ framing account before after, responseFraming parsed.headers (isBodiless exchange.method parsed.status) = .ok framing ∧
    readResponseBody runtime exchange parsed framing before = .ok (received,account) after ∧
    compressResponse runtime exchange.acceptsGzip parsed.sanitized.fields received account = .ok (sent,response.body,response.permit)
  written : response.head = serializeResponseHead parsed.status parsed.reason sent response.body.length exchange.clientKeepAlive

theorem exchanged_stages {response : UpstreamResponse} {rest : List Read} (ran : exchanged runtime exchange = .ok response rest) :
    ∃ head received parsed sent, Stages runtime exchange response head received parsed sent := by
  unfold exchanged exchangeUpstream at ran
  split at ran
  · cases ran
  · obtain ⟨⟨head,remainder⟩,stream,read,ran⟩ := Fallible.run_bind_iff.mp ran
    obtain ⟨parsed,_,given,ran⟩ := Fallible.run_bind_iff.mp ran
    obtain ⟨framing,before,framed,ran⟩ := Fallible.run_bind_iff.mp ran
    obtain ⟨⟨received,account⟩,after,body,ran⟩ := Fallible.run_bind_iff.mp ran
    obtain ⟨⟨sent,written,covered⟩,_,zipped,ran⟩ := Fallible.run_bind_iff.mp ran
    cases ran
    unfold readUpstreamHead at read
    split at read
    · rename_i parts stream' answered
      cases read
      exact ⟨head,received,parsed,sent,⟨remainder,stream,answered,(ofExcept_done given).1⟩,
        ⟨framing,account,before,after,(ofExcept_done framed).1,body,(ofExcept_done zipped).1⟩,rfl⟩
    · cases read

/-- What the implementations agree on is a result of one of them. -/
structure Implemented (protocol : Protocol) : Prop where
  header : ∀ {input block}, protocol.parseHeaderSection input = .ok block → ∃ parse ∈ headerImplementations, parse input = .ok block
  hopByHop : ∀ {block sanitized}, protocol.removeHopByHopHeaders block = .ok sanitized →
    ∃ remove ∈ hopByHopImplementations, remove block = .ok sanitized

theorem parts_plain (registered : Implemented runtime.protocol) (settable : ∀ header ∈ exchange.configuredResponseHeaders, Settable header)
    {head : List UInt8} {parsed : ResponseHead} {sanitized : SanitizedHeaders} {configured : List HeaderField}
    (parts : HeadParts runtime exchange head parsed sanitized configured) :
    ∀ field ∈ sanitized.fields ++ configured, PlainField field ∧ field.name ≠ ascii "connection" := by
  obtain ⟨offset,-,sectioned⟩ := parts.started
  obtain ⟨parse,among,parsed⟩ := registered.header sectioned
  obtain ⟨remove,listed,removed⟩ := registered.hopByHop parts.removed
  rw [HopByHopAgreement.refines_reference remove listed] at removed
  have upstream := accepted_plain ((accepted_grammar _ _ parse among).mp parsed)
  intro field member
  rcases List.mem_append.mp member with survived | added
  · obtain ⟨source,other⟩ := reference_survivors removed field survived
    exact ⟨upstream field source,other⟩
  · obtain ⟨line,unmanaged⟩ := configured_plain settable parts.rendered field added
    refine ⟨line,fun same => ?_⟩
    rw [managed_names,same] at unmanaged
    simp at unmanaged

/-- A response is sent behind one head. Its lines are those of the proxy itself and, in their order, the fields that the upstream's head and
the configuration gave; when the gzip stage has replaced the body, they are labelled with it. -/
theorem response_head_formed (registered : Implemented runtime.protocol)
    (accepted : ∀ header ∈ exchange.configuredResponseHeaders, ValidatedHeader header) {response : UpstreamResponse} {rest : List Read}
    (ran : exchanged runtime exchange = .ok response rest) :
    ∃ head received parsed sent sanitized configured fields, Stages runtime exchange response head received parsed sent ∧
      HeadParts runtime exchange head parsed sanitized configured ∧ FormedHead response.head parsed.status parsed.reason fields ∧
      OwnLines fields response.body.length exchange.clientKeepAlive ∧
      ((response.body = received ∧ fields.filter passesOn = (sanitized.fields ++ configured).filter passesOn) ∨
        (runtime.encode received = some response.body ∧
          fields.filter passesOn = (addVary (sanitized.fields ++ configured ++ [gzipField])).filter passesOn)) := by
  obtain ⟨head,received,parsed,sent,stages⟩ := exchanged_stages ran
  obtain ⟨remainder,stream,read,given⟩ := stages.read
  obtain ⟨sanitized,configured,parts⟩ := parseResponseHead_parts given
  obtain ⟨framing,account,before,after,framed,body,zipped⟩ := stages.body
  have lines := parts_plain registered (fun header member => (accepted header member).settable) parts
  rw [parts.fields] at zipped
  have labelled : ∀ field ∈ sent, PlainField field ∧ field.name ≠ ascii "connection" := by
    rcases compressResponse_ok zipped with ⟨rfl,-⟩ | ⟨-,-,rfl⟩
    · exact lines
    · exact addVary_plain lines
  refine ⟨head,received,parsed,sent,sanitized,configured,responseFields sent response.body.length exchange.clientKeepAlive,stages,parts,
    ?_,responseFields_own fun field member => (labelled field member).2,?_⟩
  · obtain ⟨offset,started,-⟩ := parts.started
    rw [stages.written]
    exact serialized_formed (parseStatusLine_inner started) fun field member => (labelled field member).1
  · rw [responseFields_others fun field member => (labelled field member).2]
    rcases compressResponse_ok zipped with ⟨rfl,same⟩ | ⟨-,encoded,rfl⟩
    · exact .inl ⟨same,rfl⟩
    · exact .inr ⟨encoded,rfl⟩

/-- A response of two bytes in plain text that varies already. -/
def variedBytes : List UInt8 :=
  ascii "TTP/1.1 200 OK" ++ [0x0d,0x0a] ++ ascii "content-type: text/plain" ++ [0x0d,0x0a] ++ ascii "vary: origin" ++ [0x0d,0x0a] ++
    ascii "content-length: 2" ++ [0x0d,0x0a,0x0d,0x0a] ++ ascii "ok"

def variedExchange (acceptsGzip : Bool) : UpstreamExchange :=
  { noContentExchange acceptsGzip with upstream := ⟨true,true,true,[.data 0x48 variedBytes]⟩ }

def variedHead : ResponseHead where
  status := 200
  reason := ascii "OK"
  headers := ⟨[⟨ascii "content-type",ascii "text/plain"⟩,⟨ascii "vary",ascii "origin"⟩,⟨ascii "content-length",ascii "2"⟩],61⟩
  sanitized := ⟨[⟨ascii "content-type",ascii "text/plain"⟩,⟨ascii "vary",ascii "origin"⟩,⟨ascii "content-length",ascii "2"⟩],[]⟩
  remainder := ascii "ok"

theorem variedHead_read : readHead [.data 0x48 variedBytes] eagerRuntime.limits.maxResponseHeaderBytes =
    (.ok ((0x48 :: variedBytes).take 78,ascii "ok"),[]) := by
  have stop : findSequence (0x48 :: variedBytes) [0x0d,0x0a,0x0d,0x0a] = some 74 := by decide +kernel
  exact readHead_once (by decide +kernel) stop (by decide) []

theorem variedHead_parsed (acceptsGzip : Bool) :
    parseResponseHead eagerRuntime (variedExchange acceptsGzip) ((0x48 :: variedBytes).take 78) (ascii "ok") = .ok variedHead := by
  cases acceptsGzip <;> decide +kernel

theorem eager_implemented : Implemented eagerRuntime.protocol where
  header parsed := ⟨HeaderTypedCursor.parseHeaderSection,by simp [headerImplementations],parsed⟩
  hopByHop removed := ⟨HopByHopRuleTable.removeHopByHopHeaders,by simp [hopByHopImplementations],removed⟩

theorem varied_answered : ∃ response rest, exchanged eagerRuntime (variedExchange true) = .ok response rest ∧
    response.head = serializeResponseHead 200 (ascii "OK") (addVary (variedHead.sanitized.fields ++ [gzipField])) 20 true := by
  have written : Fallible.returns (fun response => decide (response.head =
      serializeResponseHead 200 (ascii "OK") (addVary (variedHead.sanitized.fields ++ [gzipField])) 20 true))
      (readResponse eagerRuntime (variedExchange true) variedHead []) := by decide +kernel
  rw [exchanged_read (by decide) variedHead_read,variedHead_parsed]
  change ∃ response rest, readResponse eagerRuntime (variedExchange true) variedHead [] = .ok response rest ∧ _
  obtain ⟨response,rest,answered,same⟩ := Fallible.returns_iff.mp written
  exact ⟨response,rest,answered,of_decide_eq_true same⟩

theorem response_head_formed_varied : ∃ response rest, exchanged eagerRuntime (variedExchange true) = .ok response rest ∧
    ∃ head received parsed sent sanitized configured fields,
      Stages eagerRuntime (variedExchange true) response head received parsed sent ∧
      HeadParts eagerRuntime (variedExchange true) head parsed sanitized configured ∧
      FormedHead response.head parsed.status parsed.reason fields ∧ OwnLines fields response.body.length true ∧
      ((response.body = received ∧ fields.filter passesOn = (sanitized.fields ++ configured).filter passesOn) ∨
        (eagerRuntime.encode received = some response.body ∧
          fields.filter passesOn = (addVary (sanitized.fields ++ configured ++ [gzipField])).filter passesOn)) := by
  obtain ⟨response,rest,ran,-⟩ := varied_answered
  exact ⟨response,rest,ran,response_head_formed eager_implemented (by simp [variedExchange,noContentExchange]) ran⟩

/-- The gzip stage changes the lines that the upstream's head gives. -/
theorem gzip_relabels : ¬ ∀ runtime exchange, Implemented runtime.protocol → (∀ header ∈ exchange.configuredResponseHeaders, ValidatedHeader header) →
    ∀ response rest, exchanged runtime exchange = .ok response rest → ∃ head received parsed sent sanitized configured fields,
      Stages runtime exchange response head received parsed sent ∧ HeadParts runtime exchange head parsed sanitized configured ∧
      FormedHead response.head parsed.status parsed.reason fields ∧ OwnLines fields response.body.length exchange.clientKeepAlive ∧
      fields.filter passesOn = (sanitized.fields ++ configured).filter passesOn := by
  intro claimed
  have plain : ∀ header ∈ (variedExchange true).configuredResponseHeaders, ValidatedHeader header := by simp [variedExchange,noContentExchange]
  obtain ⟨response,rest,ran,written⟩ := varied_answered
  obtain ⟨head,received,parsed,sent,sanitized,configured,fields,stages,parts,formed,-,passed⟩ :=
    claimed _ _ eager_implemented plain response rest ran
  obtain ⟨remainder,stream,read,given⟩ := stages.read
  rw [show (variedExchange true).upstream.sends = [.data 0x48 variedBytes] from rfl,variedHead_read] at read
  cases read
  rw [variedHead_parsed] at given
  cases given
  have survivors : variedHead.sanitized.fields = sanitized.fields ++ configured := parts.fields
  have lines := parts_plain eager_implemented (fun header member => (plain header member).settable) parts
  rw [← survivors] at passed lines
  obtain ⟨offset,started,-⟩ := parts.started
  have another : FormedHead (serializeResponseHead 200 (ascii "OK") (addVary (variedHead.sanitized.fields ++ [gzipField])) 20 true) 200
      (ascii "OK") (responseFields (addVary (variedHead.sanitized.fields ++ [gzipField])) 20 true) :=
    serialized_formed (parseStatusLine_inner started) fun field member => (addVary_plain lines field member).1
  rw [← written] at another
  obtain rfl := @formedHead_unique _ _ [] [] _ _ _ _ _ _ formed another rfl
  revert passed
  decide +kernel

end Run
end Polyguard.Proxy
