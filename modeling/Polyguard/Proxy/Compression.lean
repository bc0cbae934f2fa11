import Polyguard.Authority.Implementations
import Polyguard.BodyFraming.Implementations
import Polyguard.Forwarding.Agreement
import Polyguard.Proxy.Answers
import Polyguard.Proxy.ResponseHeads
import Polyguard.RequestLine.Implementations
import Polyguard.RequestTarget.Implementations
import Polyguard.Route.Implementations

/-! The labels of compressed responses.
The proxy's own responses and those of an upstream are compressed by one stage and labelled
by two pieces of code. What is left of the labels that the configuration gives is told here
from the bytes that the client is sent. -/
namespace Polyguard.Proxy
open Ascii Slices Decimal HeaderFraming CanonicalHead

section Labels

def listsEncoding (value : List UInt8) : Bool := (value.splitOn 0x2c).any isAcceptEncoding

/-- The fields of a compressed response: one coding, and a `vary` field that names what it was chosen by. -/
structure Labelled (fields : List HeaderField) : Prop where
  encoding : (fields.filter fun field => field.name == ascii "content-encoding") = [gzipField]
  vary : ∃ field ∈ fields, field.name = ascii "vary" ∧ listsEncoding field.value

theorem isEncoded_iff {fields : List HeaderField} : isEncoded fields ↔ ∃ field ∈ fields, field.name = ascii "content-encoding" := by
  rw [isEncoded,List.any_eq_true]
  simp

theorem addVary_filter {keep : HeaderField → Bool} (away : ∀ value, keep ⟨ascii "vary",value⟩ = false) (fields : List HeaderField) :
    (addVary fields).filter keep = fields.filter keep := by
  induction fields with
  | nil => rw [addVary,List.filter_cons_of_neg (by rw [away]; exact Bool.false_ne_true)]
  | cons field fields ih =>
    unfold addVary
    split
    · rename_i varies
      obtain ⟨name,value⟩ := field
      obtain rfl : name = ascii "vary" := beq_iff_eq.mp varies
      have apart (value : List UInt8) : ¬ keep ⟨ascii "vary",value⟩ := by
        rw [away]
        exact Bool.false_ne_true
      split
      · rfl
      · rw [List.filter_cons_of_neg (apart _),List.filter_cons_of_neg (apart _)]
    · rw [List.filter_cons,List.filter_cons,ih]

/-- The names of the labels. -/
def labelNames : List (List UInt8) := [ascii "content-encoding",ascii "vary"]

theorem labels_apart : ascii "vary" ≠ ascii "content-encoding" := by simp [ascii]

theorem others_apart : ∀ name ∈ labelNames, isManaged name = false ∧
    ∀ other ∈ [ascii "server",ascii "content-length",ascii "connection",ascii "content-type",ascii "accept-ranges"], other ≠ name := by
  decide +kernel

theorem encoding_unfixed : ascii "content-encoding" ∉ HopByHopAgreement.fixedNames := by
  decide +kernel

theorem encoding_listed : listsEncoding (ascii "Accept-Encoding") :=
  rfl

theorem extended_lists (value : List UInt8) : listsEncoding (value ++ ascii ", Accept-Encoding") := by
  have named : ((ascii ", Accept-Encoding").splitOn 0x2c).tail.any isAcceptEncoding := rfl
  rw [listsEncoding,splitOn_append]
  simp [named]

theorem addVary_lists (fields : List HeaderField) : ∃ field ∈ addVary fields, field.name = ascii "vary" ∧ listsEncoding field.value := by
  induction fields with
  | nil => exact ⟨_,List.mem_singleton_self _,rfl,encoding_listed⟩
  | cons field fields ih =>
    unfold addVary
    split
    · rename_i varies
      split
      · rename_i listed
        exact ⟨field,List.mem_cons_self,beq_iff_eq.mp varies,listed⟩
      · exact ⟨_,List.mem_cons_self,beq_iff_eq.mp varies,extended_lists field.value⟩
    · obtain ⟨found,member,named,listed⟩ := ih
      exact ⟨found,List.mem_cons_of_mem _ member,named,listed⟩

theorem labelled_congr {left right : List HeaderField} (same : ∀ name ∈ labelNames,
    (left.filter fun field => field.name == name) = right.filter fun field => field.name == name) : Labelled left ↔ Labelled right := by
  have encoding := same _ List.mem_cons_self
  have vary := same _ (List.mem_cons_of_mem _ List.mem_cons_self)
  have moved {left right : List HeaderField}
      (vary : (left.filter fun field => field.name == ascii "vary") = right.filter fun field => field.name == ascii "vary")
      (found : ∃ field ∈ left, field.name = ascii "vary" ∧ listsEncoding field.value) :
      ∃ field ∈ right, field.name = ascii "vary" ∧ listsEncoding field.value := by
    obtain ⟨field,member,named,listed⟩ := found
    have chosen : field ∈ left.filter fun field => field.name == ascii "vary" := List.mem_filter.mpr ⟨member,beq_iff_eq.mpr named⟩
    rw [vary] at chosen
    exact ⟨field,List.mem_of_mem_filter chosen,named,listed⟩
  constructor
  · exact fun labelled => ⟨encoding ▸ labelled.encoding,moved vary labelled.vary⟩
  · exact fun labelled => ⟨encoding ▸ labelled.encoding,moved vary.symm labelled.vary⟩

theorem own_unlabelled {name : List UInt8} (listed : name ∈ labelNames) (bodyLength : Nat) (keepAlive : Bool) :
    isManaged name = false ∧ ([serverField].filter fun field => field.name == name) = [] ∧
      ([lengthField bodyLength,connectionField keepAlive].filter fun field => field.name == name) = [] := by
  obtain ⟨unmanaged,others⟩ := others_apart name listed
  simp only [List.forall_mem_cons] at others
  exact ⟨unmanaged,by simp [serverField,others.1],by simp [lengthField,connectionField,others.2.1,others.2.2.1]⟩

theorem responseFields_labelled (fields : List HeaderField) (bodyLength : Nat) (keepAlive : Bool) :
    Labelled (responseFields fields bodyLength keepAlive) ↔ Labelled fields := by
  apply labelled_congr
  intro name listed
  obtain ⟨unmanaged,front,back⟩ := own_unlabelled listed bodyLength keepAlive
  rw [responseFields_filter,front,back,List.nil_append,List.append_nil]
  apply List.filter_congr
  intro field _
  cases same : field.name == name with
  | false => rfl
  | true => rw [beq_iff_eq.mp same,unmanaged]; rfl

theorem addVary_labelled {fields : List HeaderField} (plain : ¬ isEncoded fields) : Labelled (addVary (fields ++ [gzipField])) := by
  have apart : (ascii "vary" == ascii "content-encoding") = false := beq_eq_false_iff_ne.mpr labels_apart
  refine ⟨?_,addVary_lists _⟩
  rw [addVary_filter fun _ => apart,List.filter_append]
  have none : (fields.filter fun field => field.name == ascii "content-encoding") = [] := by
    apply List.filter_eq_nil_iff.mpr
    intro field member named
    exact plain (isEncoded_iff.mpr ⟨field,member,beq_iff_eq.mp named⟩)
  rw [none]
  simp [gzipField]

end Labels

section Local

/-- The fields of a response of the proxy itself in their order. -/
def localFields (headers : List HeaderField) (contentType : List UInt8) (bodyLength : Nat) (keepAlive : Bool) : List HeaderField :=
  serverField :: (headers ++ [⟨ascii "content-type",contentType⟩,lengthField bodyLength,connectionField keepAlive])

/-- The bytes are a head of these fields and what follows it. -/
def Shows (bytes : List UInt8) (fields : List HeaderField) : Prop :=
  ∃ head status reason rest, FormedHead head status reason fields ∧ bytes = head ++ rest

theorem shows_unique {bytes : List UInt8} {left right : List HeaderField} (shown : Shows bytes left) (another : Shows bytes right) :
    left = right := by
  obtain ⟨head,status,reason,rest,formed,rfl⟩ := shown
  obtain ⟨_,_,_,_,other,same⟩ := another
  exact formedHead_unique formed other same

variable {headers : List HeaderField} {contentType : List UInt8} {bodyLength : Nat} {keepAlive : Bool}

theorem reasonPhrase_inner (status : Nat) : ∀ b ∈ ascii (reasonPhrase status), Inner b := by
  apply text_inner
  unfold reasonPhrase
  split <;> rfl

theorem localFields_plain (plain : ∀ field ∈ headers, PlainField field) (typed : ∀ b ∈ contentType, Inner b) :
    ∀ field ∈ localFields headers contentType bodyLength keepAlive, PlainField field := by
  obtain ⟨server,closing⟩ := ownFields_plain bodyLength keepAlive
  intro field member
  rcases List.mem_cons.mp member with rfl | member
  · exact server
  · rcases List.mem_append.mp member with added | member
    · exact plain field added
    · rcases List.mem_cons.mp member with rfl | own
      · exact own_plain (by simp [ownNames]) typed
      · exact closing field own

theorem configuredResponse_shows (plain : ∀ field ∈ headers, PlainField field) (typed : ∀ b ∈ contentType, Inner b) (status : Nat)
    (body : List UInt8) (headOnly close : Bool) : ∃ length keepAlive,
      Shows (configuredResponse status contentType body headers headOnly close) (localFields headers contentType length keepAlive) := by
  refine ⟨if status = 204 ∨ status = 304 then 0 else body.length,!close,_,status,ascii (reasonPhrase status),
    if !headOnly && (if status = 204 ∨ status = 304 then 0 else body.length) != 0 then body else [],
    ⟨rfl,reasonPhrase_inner status,localFields_plain plain typed⟩,?_⟩
  obtain ⟨server,type,length,connection⟩ := written_labels
  have each : serializeField = fun field => fieldLine field ++ [0x0d,0x0a] := funext serializeField_line
  have closing : (if close then ascii "close" else ascii "keep-alive") = (connectionField !close).value := by
    cases close <;> rfl
  delta configuredResponse
  rw [server,type,length,connection,each,closing,wireHead,localFields]
  simp only [wire,statusLine,fieldLine,lengthField,connectionField,crlf,List.map_cons,List.map_append,List.map_nil,List.flatMap_cons,
    List.flatMap_append,List.flatMap_nil,List.flatMap_map,List.append_assoc,List.cons_append,List.nil_append]
  rfl

theorem staticContentType_inner (path : List UInt8) : ∀ b ∈ staticContentType path, Inner b := by
  have checked : ∀ type ∈ ascii "application/octet-stream" :: contentTypes.map Prod.snd, type.all fun b => b != 0x0d && b != 0x0a := by
    decide +kernel
  unfold staticContentType
  dsimp only
  cases found : contentTypes.find? fun row => (((extensionOf path).bind Utf8.fromUtf8).map (·.map toAsciiLowercase)).any row.1.contains with
  | none => exact text_inner (checked _ List.mem_cons_self)
  | some row => exact text_inner (checked _ (List.mem_cons_of_mem _ (List.mem_map_of_mem (List.mem_of_find?_eq_some found))))

theorem addGzipHeaders_plain (plain : ∀ field ∈ headers, PlainField field) : ∀ field ∈ addGzipHeaders headers, PlainField field := by
  have encoding : PlainField ⟨ascii "content-encoding",ascii "gzip"⟩ := own_plain (by simp [ownNames]) (ownTexts_inner _ (by simp [ownTexts]))
  have vary : PlainField ⟨ascii "vary",ascii "Accept-Encoding"⟩ := own_plain (by simp [ownNames]) (ownTexts_inner _ (by simp [ownTexts]))
  have labelled : ∀ field ∈ headers ++ [⟨ascii "content-encoding",ascii "gzip"⟩], PlainField field :=
    List.forall_mem_append.mpr ⟨plain,List.forall_mem_singleton.mpr encoding⟩
  unfold addGzipHeaders
  dsimp only
  split
  · exact labelled
  · exact List.forall_mem_append.mpr ⟨labelled,List.forall_mem_singleton.mpr vary⟩

/-- What the configured headers must leave to the gzip stage: the coding, and a `vary` field unless theirs names it. -/
def LabelsFit (headers : List HeaderField) : Prop :=
  ¬ isEncoded headers ∧ ((∀ field ∈ headers, field.name ≠ ascii "vary") ∨
    ∃ field ∈ headers, field.name = ascii "vary" ∧ listsEncoding field.value)

theorem labelsFit_append {field : HeaderField} (other : ∀ name ∈ labelNames, field.name ≠ name) :
    LabelsFit (headers ++ [field]) ↔ LabelsFit headers := by
  have unvaried := other _ (List.mem_cons_of_mem _ List.mem_cons_self)
  have plain : isEncoded (headers ++ [field]) = isEncoded headers := by
    simp [isEncoded,other _ List.mem_cons_self]
  have none : (∀ given ∈ headers ++ [field], given.name ≠ ascii "vary") ↔ ∀ given ∈ headers, given.name ≠ ascii "vary" := by
    rw [List.forall_mem_append,List.forall_mem_singleton]
    exact and_iff_left unvaried
  have listed : (∃ given ∈ headers ++ [field], given.name = ascii "vary" ∧ listsEncoding given.value) ↔
      ∃ given ∈ headers, given.name = ascii "vary" ∧ listsEncoding given.value := by
    constructor
    · rintro ⟨given,member,named,lists⟩
      rcases List.mem_append.mp member with former | last
      · exact ⟨given,former,named,lists⟩
      · exact absurd (List.mem_singleton.mp last ▸ named) unvaried
    · rintro ⟨given,member,label⟩
      exact ⟨given,List.mem_append_left _ member,label⟩
  rw [LabelsFit,LabelsFit,plain,none,listed]

theorem localFields_labelled : Labelled (localFields headers contentType bodyLength keepAlive) ↔ Labelled headers := by
  apply labelled_congr
  intro name listed
  obtain ⟨-,front,back⟩ := own_unlabelled listed bodyLength keepAlive
  rw [localFields,← List.singleton_append,List.filter_append,front,List.nil_append,List.filter_append,List.filter_cons_of_neg,back,
    List.append_nil]
  rw [beq_iff_eq]
  exact (others_apart name listed).2 _ (by simp)

theorem addGzipHeaders_labelled : Labelled (addGzipHeaders headers) ↔ LabelsFit headers := by
  have coding : ((headers ++ [gzipField]).filter fun field => field.name == ascii "content-encoding") = [gzipField] ↔ ¬ isEncoded headers := by
    have own : ([gzipField].filter fun field => field.name == ascii "content-encoding") = [gzipField] := by simp [gzipField]
    rw [List.filter_append,own,List.append_left_eq_self,List.filter_eq_nil_iff,isEncoded_iff]
    simp
  have apart : gzipField.name ≠ ascii "vary" := labels_apart.symm
  have unlabelled : ([⟨ascii "vary",ascii "Accept-Encoding"⟩] : List HeaderField).filter (fun field => field.name == ascii "content-encoding") =
      [] := by simp [labels_apart]
  unfold addGzipHeaders
  dsimp only
  split
  · rename_i varied
    constructor
    · intro labelled
      refine ⟨coding.mp labelled.encoding,.inr ?_⟩
      obtain ⟨field,member,named,listed⟩ := labelled.vary
      rcases List.mem_append.mp member with given | label
      · exact ⟨field,given,named,listed⟩
      · obtain rfl := List.mem_singleton.mp label
        exact absurd named apart
    · rintro ⟨plain,none | ⟨field,member,named,listed⟩⟩
      · obtain ⟨field,member,named⟩ := List.any_eq_true.mp varied
        rcases List.mem_append.mp member with given | label
        · exact absurd (beq_iff_eq.mp named) (none field given)
        · obtain rfl := List.mem_singleton.mp label
          exact absurd (beq_iff_eq.mp named) apart
      · exact ⟨coding.mpr plain,field,List.mem_append_left _ member,named,listed⟩
  · rename_i unvaried
    have none : ∀ field ∈ headers, field.name ≠ ascii "vary" := by
      intro field member named
      apply unvaried
      rw [List.any_eq_true]
      exact ⟨field,List.mem_append_left _ member,beq_iff_eq.mpr named⟩
    have filtered : ((headers ++ [gzipField] ++ [(⟨ascii "vary",ascii "Accept-Encoding"⟩ : HeaderField)]).filter fun field =>
        field.name == ascii "content-encoding") = (headers ++ [gzipField]).filter fun field => field.name == ascii "content-encoding" := by
      rw [List.filter_append,unlabelled,List.append_nil]
    constructor
    · intro labelled
      exact ⟨coding.mp (filtered ▸ labelled.encoding),.inl none⟩
    · rintro ⟨plain,-⟩
      exact ⟨filtered.trans (coding.mpr plain),⟨ascii "vary",ascii "Accept-Encoding"⟩,
        List.mem_append_right _ (List.mem_singleton_self _),rfl,encoding_listed⟩

end Local

section Compressed
variable (gateway : Gateway) (around : Surroundings)

/-- The body of the answer to an admitted request is replaced by its gzip form; the fields are those that the upstream and the
configuration give to the response. On the way of an exchange the stage changes the fields when it replaces the body, and only then. -/
inductive Compressed (admitted : Admitted) : List HeaderField → Prop
  | respond {status length : Nat} {body contentType text mediaType written : List UInt8} {headers : List HeaderField}
      {account covered : Account} (action : admitted.route.action = .respond status body contentType)
      (measured : renderedTemplateLength body admitted.context gateway.maxResponseBodyBytes = .ok length)
      (reserved : Account.reserve around.budgets length = .ok account)
      (rendered : renderTemplate body admitted.context gateway.maxResponseBodyBytes = .ok text)
      (typed : renderTemplate contentType admitted.context 1024 = .ok mediaType)
      (configured : renderResponseHeaders admitted.route.responseHeaders admitted.context admitted.request.method status = .ok headers)
      (zipped : gzipBodyAccounted gateway.runtime (clientAcceptsGzip admitted.headers) mediaType text account =
        .ok (some written,covered)) : Compressed admitted headers
  | files {directory : List UInt8} {mapping : StaticMapping} {index : List (List UInt8)} {tryFiles : Bool} {errorPage : Option (List UInt8)}
      {response : StaticResponse} {written : List UInt8} {headers : List HeaderField} {covered : Account}
      (action : admitted.route.action = .files directory mapping index tryFiles errorPage)
      (served : serveStatic around.files admitted.route admitted.target admitted.request.method admitted.headers
        gateway.maxResponseBodyBytes around.budgets = .ok response)
      (found : response.status = 200)
      (configured : renderResponseHeaders admitted.route.responseHeaders admitted.context admitted.request.method 200 = .ok headers)
      (zipped : gzipBodyAccounted gateway.runtime (clientAcceptsGzip admitted.headers) response.contentType response.body response.account =
        .ok (some written,covered)) : Compressed admitted (headers ++ response.headers)
  | proxy {upstream : List UInt8} {replaces hostHeader : Option (List UInt8)} {response : UpstreamResponse} {rest : List Read}
      {head received : List UInt8} {parsed : ResponseHead} {sent : List HeaderField} {sanitized : SanitizedHeaders}
      {configured : List HeaderField} (action : admitted.route.action = .proxy upstream replaces hostHeader)
      (ran : exchanged gateway.runtime (upstreamExchange around admitted) = .ok response rest)
      (stages : Stages gateway.runtime (upstreamExchange around admitted) response head received parsed sent)
      (parts : HeadParts gateway.runtime (upstreamExchange around admitted) head parsed sanitized configured)
      (replaced : sent ≠ sanitized.fields ++ configured) : Compressed admitted (parsed.headers.fields ++ configured)

variable {gateway around} {admitted : Admitted}

/-- The configured headers that apply leave the coding to the gzip stage, and they name the header that it is chosen by when they vary. -/
def ConfiguredFit (admitted : Admitted) (status : Nat) : Prop :=
  let applied := admitted.route.responseHeaders.filter (headerApplies · admitted.request.method status)
  (∀ header ∈ applied, header.name ≠ ascii "content-encoding") ∧ ((∀ header ∈ applied, header.name ≠ ascii "vary") ∨
    ∃ header ∈ applied, header.name = ascii "vary" ∧ ∃ value, renderTemplate header.value admitted.context maxHeaderValueBytes = .ok value ∧
      listsEncoding value)

theorem sets_fit {context : TemplateContext} {applied : List HeaderValueConfig} {fields : List HeaderField}
    (sets : List.Forall₂ (Sets context) applied fields) : LabelsFit fields ↔
      (∀ header ∈ applied, header.name ≠ ascii "content-encoding") ∧ ((∀ header ∈ applied, header.name ≠ ascii "vary") ∨
        ∃ header ∈ applied, header.name = ascii "vary" ∧ ∃ value, renderTemplate header.value context maxHeaderValueBytes = .ok value ∧
          listsEncoding value) := by
  have names (name : List UInt8) : (∀ field ∈ fields, field.name ≠ name) ↔ ∀ header ∈ applied, header.name ≠ name := by
    have same := sets_names sets
    constructor
    · intro none header member named
      have listed := List.mem_map_of_mem (f := (·.name)) member
      rw [← same] at listed
      obtain ⟨field,among,equal⟩ := List.mem_map.mp listed
      exact none field among (equal.trans named)
    · intro none field member named
      have listed := List.mem_map_of_mem (f := (·.name)) member
      rw [same] at listed
      obtain ⟨header,among,equal⟩ := List.mem_map.mp listed
      exact none header among (equal.trans named)
  have plain : ¬ isEncoded fields ↔ ∀ field ∈ fields, field.name ≠ ascii "content-encoding" := by
    rw [isEncoded_iff]
    simp
  have listed : (∃ field ∈ fields, field.name = ascii "vary" ∧ listsEncoding field.value) ↔ ∃ header ∈ applied, header.name = ascii "vary" ∧
      ∃ value, renderTemplate header.value context maxHeaderValueBytes = .ok value ∧ listsEncoding value := by
    clear names plain
    induction sets with
    | nil => simp
    | cons first sets ih =>
      obtain ⟨named,rendered⟩ := first
      rw [List.exists_mem_cons_iff,List.exists_mem_cons_iff,ih,named,rendered]
      simp
  rw [LabelsFit,plain,names,names,listed]

theorem configured_fit {status : Nat} {headers : List HeaderField}
    (rendered : renderResponseHeaders admitted.route.responseHeaders admitted.context admitted.request.method status = .ok headers) :
    LabelsFit headers ↔ ConfiguredFit admitted status := sets_fit (renderHeaders_sets rendered)

theorem serveStatic_whole {files : FileSystem} {route : RuntimeRoute} {target : NormalizedTarget} {method : List UInt8} {headers : HeaderBlock}
    {maxBytes : Nat} {budgets : Nat → Memory.Budget} {response : StaticResponse}
    (served : serveStatic files route target method headers maxBytes budgets = .ok response) (found : response.status = 200) :
    response.headers = [⟨ascii "accept-ranges",ascii "bytes"⟩] ∧ ∃ path, response.contentType = staticContentType path := by
  have fixed {status : Nat} {text : List UInt8} (other : status ≠ 200) (answered : fixedResponse status text budgets = .ok response) : False := by
    obtain ⟨account,-,made⟩ := Fallible.bind_iff.mp answered
    cases made
    exact other found
  unfold serveStatic at served
  split at served
  · dsimp only at served
    split at served
    · cases served
    · split at served
      · exact (fixed (by decide) served).elim
      · obtain ⟨file,-,served⟩ := Fallible.bind_iff.mp served
        split at served
        · rename_i path body account
          cases served
          unfold fileResponse at found ⊢
          dsimp only at found ⊢
          split
          · exact ⟨rfl,path,rfl⟩
          · rename_i same
            rw [same] at found
            cases found
          · rename_i same
            rw [same] at found
            cases found
        · split at served
          · exact (fixed (by decide) served).elim
          · split at served
            · cases served
            · obtain ⟨page,-,served⟩ := Fallible.bind_iff.mp served
              split at served
              · cases served
                cases found
              · exact (fixed (by decide) served).elim
  · cases served

/-- The upstream nominates no coding of its own for removal. -/
def UpstreamFit (gateway : Gateway) (around : Surroundings) (admitted : Admitted) : Prop :=
  ∀ parsed, receivedHead gateway.runtime (upstreamExchange around admitted) = some parsed → ∀ field ∈ parsed.headers.fields,
    field.name = ascii "content-encoding" → ¬ HopByHopAgreement.Nominated parsed.headers.fields (ascii "content-encoding")

/-- The condition on the configured headers and, for an exchange, on the head that the upstream sends. -/
def Fits (gateway : Gateway) (around : Surroundings) (admitted : Admitted) : Prop :=
  match admitted.route.action with
  | .redirect _ _ => True
  | .respond status _ _ => ConfiguredFit admitted status
  | .files _ _ _ _ _ => ConfiguredFit admitted 200
  | .proxy _ _ _ => UpstreamFit gateway around admitted

/-- The bytes show one coding and a `vary` field for it, on a response that had no coding before. -/
def ConsistentlyLabelled (bytes : List UInt8) (given : List HeaderField) : Prop :=
  ¬ isEncoded given ∧ ∃ fields, Shows bytes fields ∧ Labelled fields

theorem consistently_iff {bytes : List UInt8} {given fields : List HeaderField} (shown : Shows bytes fields) :
    ConsistentlyLabelled bytes given ↔ ¬ isEncoded given ∧ Labelled fields := by
  constructor
  · rintro ⟨plain,others,another,labelled⟩
    obtain rfl := shows_unique shown another
    exact ⟨plain,labelled⟩
  · exact fun ⟨plain,labelled⟩ => ⟨plain,fields,shown,labelled⟩

theorem local_labelled {headers : List HeaderField} {mediaType : List UInt8} (plain : ∀ field ∈ headers, PlainField field)
    (typed : ∀ b ∈ mediaType, Inner b) (status : Nat) (written : List UInt8) (headOnly close : Bool) :
    ConsistentlyLabelled (configuredResponse status mediaType written (addGzipHeaders headers) headOnly close) headers ↔
      LabelsFit headers := by
  obtain ⟨length,keepAlive,shown⟩ := configuredResponse_shows (addGzipHeaders_plain plain) typed status written headOnly close
  rw [consistently_iff shown,localFields_labelled,addGzipHeaders_labelled]
  exact and_iff_right_of_imp And.left

theorem respondBytes_ok {status length : Nat} {body contentType text mediaType written : List UInt8} {headers : List HeaderField}
    {account covered : Account} (measured : renderedTemplateLength body admitted.context gateway.maxResponseBodyBytes = .ok length)
    (reserved : Account.reserve around.budgets length = .ok account)
    (rendered : renderTemplate body admitted.context gateway.maxResponseBodyBytes = .ok text)
    (typed : renderTemplate contentType admitted.context 1024 = .ok mediaType)
    (configured : renderResponseHeaders admitted.route.responseHeaders admitted.context admitted.request.method status = .ok headers)
    (zipped : gzipBodyAccounted gateway.runtime (clientAcceptsGzip admitted.headers) mediaType text account = .ok (some written,covered)) :
    respondBytes gateway around admitted status body contentType = .ok (configuredResponse status mediaType written (addGzipHeaders headers)
      (admitted.request.method == ascii "head") !keepsAlive admitted) := by
  rw [respondBytes,Fallible.bind_ok measured,Fallible.bind_ok reserved,Fallible.bind_ok rendered,Fallible.bind_ok typed,
    Fallible.bind_ok configured,Fallible.bind_ok zipped]
  rfl

theorem respond_labelled (settable : ∀ header ∈ admitted.route.responseHeaders, Settable header) {status length : Nat}
    {body contentType bytes text mediaType written : List UInt8} {headers : List HeaderField} {account covered : Account}
    (measured : renderedTemplateLength body admitted.context gateway.maxResponseBodyBytes = .ok length)
    (reserved : Account.reserve around.budgets length = .ok account)
    (rendered : renderTemplate body admitted.context gateway.maxResponseBodyBytes = .ok text)
    (typed : renderTemplate contentType admitted.context 1024 = .ok mediaType)
    (configured : renderResponseHeaders admitted.route.responseHeaders admitted.context admitted.request.method status = .ok headers)
    (zipped : gzipBodyAccounted gateway.runtime (clientAcceptsGzip admitted.headers) mediaType text account = .ok (some written,covered))
    (answered : respondBytes gateway around admitted status body contentType = .ok bytes) :
    ConsistentlyLabelled bytes headers ↔ ConfiguredFit admitted status := by
  rw [respondBytes_ok measured reserved rendered typed configured zipped] at answered
  obtain rfl := Except.ok.inj answered
  rw [local_labelled (fun field member => (configured_plain settable configured field member).1) (renderTemplate_inner typed),
    configured_fit configured]

theorem static_labelled (settable : ∀ header ∈ admitted.route.responseHeaders, Settable header) {bytes written : List UInt8}
    {response : StaticResponse} {headers : List HeaderField} {covered : Account}
    (served : serveStatic around.files admitted.route admitted.target admitted.request.method admitted.headers
      gateway.maxResponseBodyBytes around.budgets = .ok response) (found : response.status = 200)
    (configured : renderResponseHeaders admitted.route.responseHeaders admitted.context admitted.request.method 200 = .ok headers)
    (zipped : gzipBodyAccounted gateway.runtime (clientAcceptsGzip admitted.headers) response.contentType response.body response.account =
      .ok (some written,covered)) (answered : staticBytes gateway around admitted = .ok bytes) :
    ConsistentlyLabelled bytes (headers ++ response.headers) ↔ ConfiguredFit admitted 200 := by
  obtain ⟨own,path,typed⟩ := serveStatic_whole served found
  rw [staticBytes,Fallible.bind_ok served,found,Fallible.bind_ok configured] at answered
  dsimp only at answered
  rw [if_pos rfl,Fallible.bind_ok zipped] at answered
  dsimp only at answered
  obtain rfl := Except.ok.inj answered
  have plain : ∀ field ∈ headers ++ response.headers, PlainField field := by
    rw [own,List.forall_mem_append,List.forall_mem_singleton]
    exact ⟨fun field member => (configured_plain settable configured field member).1,
      own_plain (by simp [ownNames]) (ownTexts_inner _ (by simp [ownTexts]))⟩
  rw [local_labelled plain (typed ▸ staticContentType_inner path),← configured_fit configured,own]
  exact labelsFit_append fun name listed => (others_apart name listed).2 _ (by simp)

theorem proxy_labelled (registered : Implemented gateway.runtime.protocol)
    (settable : ∀ header ∈ admitted.route.responseHeaders, Settable header) {response : UpstreamResponse}
    {head received : List UInt8} {parsed : ResponseHead} {sent configured : List HeaderField} {sanitized : SanitizedHeaders}
    (stages : Stages gateway.runtime (upstreamExchange around admitted) response head received parsed sent)
    (parts : HeadParts gateway.runtime (upstreamExchange around admitted) head parsed sanitized configured)
    (replaced : sent ≠ sanitized.fields ++ configured) :
    ConsistentlyLabelled (response.head ++ response.body) (parsed.headers.fields ++ configured) ↔ UpstreamFit gateway around admitted := by
  have lines := parts_plain registered settable parts
  obtain ⟨remainder,stream,read,given⟩ := stages.read
  obtain ⟨framing,account,before,after,-,-,zipped⟩ := stages.body
  rw [parts.fields] at zipped
  obtain ⟨plain,-,rfl⟩ := (compressResponse_ok zipped).resolve_left fun same => replaced same.1
  obtain ⟨offset,started,-⟩ := parts.started
  have shown : Shows (response.head ++ response.body) (responseFields (addVary (sanitized.fields ++ configured ++ [gzipField]))
      response.body.length (upstreamExchange around admitted).clientKeepAlive) := by
    refine ⟨response.head,parsed.status,parsed.reason,response.body,?_,rfl⟩
    rw [stages.written]
    exact serialized_formed (parseStatusLine_inner started) fun field member => (addVary_plain lines field member).1
  rw [consistently_iff shown,responseFields_labelled,and_iff_left (addVary_labelled plain)]
  have received : receivedHead gateway.runtime (upstreamExchange around admitted) = some parsed := by
    rw [receivedHead_read read,given]
    rfl
  obtain ⟨remove,listed,removed⟩ := registered.hopByHop parts.removed
  rw [HopByHopAgreement.refines_reference remove listed] at removed
  obtain ⟨-,survivors⟩ := (HopByHopAgreement.reference_ok _ _).mp removed
  have kept : sanitized.fields = _ := (congrArg SanitizedHeaders.fields survivors).trans (HopByHopAgreement.survivors_eq _)
  constructor
  · intro untouched other same field member named
    rw [received] at same
    cases same
    exact absurd (isEncoded_iff.mpr ⟨field,List.mem_append_left _ member,named⟩) untouched
  · intro fits encoded
    obtain ⟨field,member,named⟩ := isEncoded_iff.mp encoded
    rcases List.mem_append.mp member with upstream | added
    · have survives : field ∈ sanitized.fields := by
        rw [kept]
        apply List.mem_filter.mpr
        rw [decide_eq_true_eq,named]
        exact ⟨upstream,encoding_unfixed,fits parsed received field upstream named⟩
      exact plain (isEncoded_iff.mpr ⟨field,List.mem_append_left _ survives,named⟩)
    · exact plain (isEncoded_iff.mpr ⟨field,List.mem_append_right _ added,named⟩)

end Compressed

section Labelling
variable {isDirectory : List UInt8 → Bool} {canonicalize : List UInt8 → Option (List UInt8)} {config : Config}
  {gateway : Gateway} {client : Client} {around : Surroundings}

theorem compiled_settable (valid : validateConfig isDirectory config = .ok ()) {routes : List RuntimeRoute}
    (compiled : compileRuntimeRoutes canonicalize config = some routes) {route : RuntimeRoute} (member : route ∈ routes) :
    ∀ header ∈ route.responseHeaders, Settable header := by
  obtain ⟨upstreams,-,accepted⟩ := validateConfig_sites valid
  rcases compiled_source compiled member with ⟨-,none⟩ | ⟨site,listed,source,among,-,same⟩
  · rw [none]
    simp
  · have passed := accepted site listed
    rw [same,List.forall_mem_append]
    exact ⟨accepted_settable passed.responseHeaders,accepted_settable (passed.routes source among).responseHeaders⟩

theorem compressed_labelled {admitted : Admitted} (registered : Implemented gateway.runtime.protocol)
    (settable : ∀ header ∈ admitted.route.responseHeaders, Settable header) {given : List HeaderField} {bytes : List UInt8}
    (compressed : Compressed gateway around admitted given) (answered : answerBytes gateway around admitted = .ok bytes) :
    ConsistentlyLabelled bytes given ↔ Fits gateway around admitted := by
  unfold answerBytes at answered
  unfold Fits
  cases compressed with
  | respond action measured reserved rendered typed configured zipped =>
    rw [action] at answered ⊢
    exact respond_labelled settable measured reserved rendered typed configured zipped answered
  | files action served found configured zipped =>
    rw [action] at answered ⊢
    exact static_labelled settable served found configured zipped answered
  | proxy action ran stages parts replaced =>
    rw [action] at answered ⊢
    rw [ran] at answered
    cases answered
    exact proxy_labelled registered settable stages parts replaced

/-- A site that answers in plain text, compressed, with a `vary` field of its own. -/
def varyConfig (vary : List UInt8) : Config :=
  { sampleConfig with
    compression := ⟨true,0,[ascii "text/plain"]⟩
    routes := []
    sites := [⟨false,[ascii "a.test"],[⟨ascii "/",.boundaryPrefix,[],[],none,[],[⟨ascii "vary",vary,false,[]⟩],[],
      .respond 200 (ascii "hello") (ascii "text/plain")⟩],[],[]⟩] }

def varyRoute (vary : List UInt8) : RuntimeRoute :=
  ⟨actionId 0,ascii "a.test",ascii "/",.boundaryPrefix,[],[],16777216,[],[⟨ascii "vary",vary,false,[]⟩],[],
    .respond 200 (ascii "hello") (ascii "text/plain"),0⟩

/-- The gzip member of the text. -/
def helloMember : List UInt8 :=
  [0x1f,0x8b,0x08,0,0,0,0,0,0,0xff,0xcb,0x48,0xcd,0xc9,0xc9,0x07,0,0x86,0xa6,0x10,0x36,5,0,0,0]

/-- One implementation of each function. -/
def plainCalls : Calls where
  parseRequestLine head := agreed (RequestLineDirect.parseRequestLine head)
  parseHeaderSection wire := agreed (HeaderTypedCursor.parseHeaderSection wire)
  determineBodyFraming _ headers := agreed (BodyFramingDirect.determineBodyFraming headers)
  parseChunkMetadata _ := .error .internal
  parseTrailerSection _ _ := .error .internal
  normalizeRequestTarget request := agreed (RequestTargetRules.normalizeRequestTarget request)
  reconcileAuthority target headers := agreed (AuthorityPhases.reconcileAuthority target headers)
  removeHopByHopHeaders headers := agreed (HopByHopRuleTable.removeHopByHopHeaders headers)
  constructCanonicalUpstreamHead _ _ _ _ _ _ := .error .internal
  matchRoute authority target rules := agreed (RouteDirect.matchRoute authority target rules)
  applyForwardingPolicy policy headers := agreed (ForwardingDirectMatch.applyForwardingPolicy policy headers)
  decideUpgrade request headers framing := agreed (UpgradeComposableTable.decideUpgrade request headers framing)

def varyGateway (vary : List UInt8) : Gateway where
  trustForwardingHeaders := false
  maxResponseBodyBytes := 67108864
  routes := [varyRoute vary]
  upstreams := [ascii "app"]
  calls := plainCalls
  runtime := { eagerRuntime with encode := fun body => if body = ascii "hello" then some helloMember else none }

def varyRequest : List UInt8 :=
  ascii "ET / HTTP/1.1" ++ [0x0d,0x0a] ++ ascii "host: a.test" ++ [0x0d,0x0a] ++ ascii "accept-encoding: gzip" ++ [0x0d,0x0a,0x0d,0x0a]

def varyClient : Client := ⟨ForwardingAgreement.localhost,false,none⟩

def openSurroundings : Surroundings where
  configures := true
  takesContinue := .whole
  takesResponse := .whole
  takesRejection := .whole
  takesTimeout := true
  peek := .blocks
  budgets := fun _ => ⟨0,67108864⟩
  upstream := ⟨false,false,false,[]⟩
  upstreamTakes := 0
  upstreamBudgets := fun _ => ⟨0,67108864⟩
  files := ⟨fun _ => none,fun _ => false,fun _ => false,fun _ => none⟩

def varyConnection : Connection := ⟨.new [.data 0x47 varyRequest] [],[]⟩

def varyContext : TemplateContext :=
  ⟨ascii "a.test",ascii "a.test",ascii "127.0.0.1",ascii "http",ascii "/",ascii "127.0.0.1"⟩

/-- The configured values of the field, of which the second lists the name that the gzip stage adds. -/
def varyValues : List (List UInt8) := [ascii "origin",ascii "accept-encoding"]

theorem varyValues_listed : listsEncoding (ascii "origin") = false ∧ listsEncoding (ascii "accept-encoding") = true :=
  ⟨rfl,rfl⟩

theorem varyConfig_compiled : ∀ vary ∈ varyValues, validateConfig (fun _ => false) (varyConfig vary) = .ok () ∧
    compileRuntimeRoutes some (varyConfig vary) = some (varyGateway vary).routes := by
  decide +kernel

section Admitted
variable {vary : List UInt8} {admitted : Admitted} (listed : vary ∈ varyValues) (route : admitted.route = varyRoute vary)
  (context : admitted.context = varyContext)

theorem varyRequest_rendered : renderedTemplateLength (ascii "hello") varyContext 67108864 = .ok 5 ∧
    renderTemplate (ascii "hello") varyContext 67108864 = .ok (ascii "hello") ∧
    renderTemplate (ascii "text/plain") varyContext 1024 = .ok (ascii "text/plain") ∧
    ∀ vary ∈ varyValues, renderResponseHeaders (varyRoute vary).responseHeaders varyContext (ascii "get") 200 =
      .ok [⟨ascii "vary",vary⟩] := by
  decide +kernel

include route in
theorem varyRequest_action : admitted.route.action = .respond 200 (ascii "hello") (ascii "text/plain") := by
  rw [route]
  rfl

include listed route context in
theorem varyRequest_configured (method : admitted.request.method = ascii "get") :
    renderResponseHeaders admitted.route.responseHeaders admitted.context admitted.request.method 200 = .ok [⟨ascii "vary",vary⟩] := by
  rw [route,context,method]
  exact varyRequest_rendered.2.2.2 vary listed

theorem varyRequest_zipped (vary : List UInt8) (accepts : clientAcceptsGzip admitted.headers) :
    gzipBodyAccounted (varyGateway vary).runtime (clientAcceptsGzip admitted.headers) (ascii "text/plain") (ascii "hello")
      ⟨5,fun _ => ⟨0,67108864⟩⟩ = .ok (some helloMember,⟨74,fun _ => ⟨0,67108864⟩⟩) := by
  rw [accepts]
  rfl

include listed route context in
theorem varyRequest_compressed (method : admitted.request.method = ascii "get") (accepts : clientAcceptsGzip admitted.headers) :
    Compressed (varyGateway vary) openSurroundings admitted [⟨ascii "vary",vary⟩] := by
  have configured := varyRequest_configured listed route context method
  obtain ⟨measured,rendered,typed,-⟩ := varyRequest_rendered
  rw [← context] at measured rendered typed
  exact .respond (varyRequest_action route) measured rfl rendered typed configured (varyRequest_zipped vary accepts)

include listed route context in
theorem varyRequest_answered (method : admitted.request.method = ascii "get") (accepts : clientAcceptsGzip admitted.headers) :
    ∃ bytes, respondBytes (varyGateway vary) openSurroundings admitted 200 (ascii "hello") (ascii "text/plain") = .ok bytes := by
  have configured := varyRequest_configured listed route context method
  obtain ⟨measured,rendered,typed,-⟩ := varyRequest_rendered
  rw [← context] at measured rendered typed
  exact ⟨_,respondBytes_ok measured rfl rendered typed configured (varyRequest_zipped vary accepts)⟩

include listed route context in
theorem varyRequest_fits (method : admitted.request.method = ascii "get") :
    Fits (varyGateway vary) openSurroundings admitted ↔ listsEncoding vary := by
  rw [Fits,varyRequest_action route]
  change ConfiguredFit admitted 200 ↔ _
  rw [← configured_fit (varyRequest_configured listed route context method),LabelsFit,isEncoded_iff]
  simp [labels_apart]

end Admitted

theorem varyRequest_received : receiveHead (maxRequestLineBytes + maxRequestHeaderBytes) varyConnection =
    .ok (0x47 :: varyRequest,[]) ⟨.new [] [],[]⟩ := by
  obtain ⟨stop,short,front,behind⟩ : findSequence (0x47 :: varyRequest) [0x0d,0x0a,0x0d,0x0a] = some 51 ∧ varyRequest.length < 2048 ∧
      (0x47 :: varyRequest).take 55 = 0x47 :: varyRequest ∧ (0x47 :: varyRequest).drop 55 = [] := by decide +kernel
  have read := @readHead_once 0x47 varyRequest (maxRequestLineBytes + maxRequestHeaderBytes) 51 short stop (by decide) []
  rw [front,behind] at read
  unfold receiveHead
  rw [show varyConnection.client.stream = [.data 0x47 varyRequest] from rfl,read]
  rfl

theorem varyRequest_admitted {vary : List UInt8} (listed : vary ∈ varyValues) :
    ∃ admitted middle, admitRequest (varyGateway vary) varyClient openSurroundings varyConnection = .ok admitted middle ∧
      admitted.route = varyRoute vary ∧ admitted.context = varyContext ∧ admitted.request.method = ascii "get" ∧
      clientAcceptsGzip admitted.headers := by
  have checked : ∀ vary ∈ varyValues, Fallible.returns (fun admitted => decide (admitted.route = varyRoute vary ∧
      admitted.context = varyContext ∧ admitted.request.method = ascii "get" ∧ clientAcceptsGzip admitted.headers))
      (admitRequest (varyGateway vary) varyClient openSurroundings varyConnection) := by
    simp only [admitRequest,parseHead,bind,EStateM.bind,openSurroundings,Bool.not_true,Bool.false_eq_true,if_false,varyRequest_received]
    decide +kernel
  obtain ⟨admitted,middle,admits,found⟩ := Fallible.returns_iff.mp (checked vary listed)
  exact ⟨admitted,middle,admits,of_decide_eq_true found⟩

theorem varyRequest_processed {vary : List UInt8} (listed : vary ∈ varyValues) :
    ∃ keeps after, processRequest (varyGateway vary) varyClient openSurroundings varyConnection = .ok keeps after := by
  obtain ⟨admitted,middle,admits,route,context,method,accepts⟩ := varyRequest_admitted listed
  obtain ⟨bytes,answered⟩ := varyRequest_answered listed route context method accepts
  exact processRequest_responds admits (varyRequest_action route) answered rfl

end Labelling
end Polyguard.Proxy
