import Polyguard.CanonicalHead.Implementations
import Polyguard.Header.Agreement

/-! The canonical head as lines.
`construct` is the head that the implementations build, in terms of what they judge
(`Judge`) and of the fields that the head holds (`headFields`). Its size is the length
of its bytes, and its lines can be read back. -/
namespace Polyguard.CanonicalHead
open Ascii Slices Decimal Address TargetBytes HeaderFraming HeaderAgreement

section Digits

theorem renderDecimalFrom_eq (room value : Nat) (digits : List UInt8) (within : value < room) :
    renderDecimalFrom room value digits = decimal value ++ digits := by
  have digit (n : Fin 10) : 0x30 + UInt8.ofNat n.val = n.val.digitChar.toUInt8 := by
    revert n
    decide
  induction room generalizing value digits with
  | zero => omega
  | succ room ih =>
    rw [renderDecimalFrom]
    by_cases small : value < 10
    · have single := digit ⟨value,small⟩
      rw [if_pos (Nat.div_eq_of_lt small),Nat.mod_eq_of_lt small,single,decimal_of_lt small]
      rfl
    · have pushed := decimal_push (show 0 < value / 10 by omega) (show value % 10 < 10 by omega)
      rw [show 10 * (value / 10) + value % 10 = value by omega] at pushed
      rw [if_neg (by omega),ih _ _ (by omega),digit ⟨value % 10,by omega⟩,pushed,List.append_assoc]
      rfl

@[simp] theorem renderDecimal_eq (value : Nat) : renderDecimal value = decimal value := by
  rw [renderDecimal,renderDecimalFrom_eq _ _ _ (Nat.lt_succ_self value),List.append_nil]

@[simp] theorem decimalLen_eq (value : Nat) : decimalLen value = (decimal value).length := by
  have count : value ≠ 0 → Nat.log 10 value + 1 = (decimal value).length := by
    induction value using digit_induction with
    | single n =>
      intro _
      rw [decimal_of_lt n.isLt,Nat.log_of_lt n.isLt]
      rfl
    | push number positive digit ih =>
      intro _
      have pushed : (10 * number + digit.val) / 10 = number := by omega
      rw [decimal_push positive digit.isLt,List.length_append,← ih (by omega),
        Nat.log_of_one_lt_of_le (by decide) (show 10 ≤ 10 * number + digit.val by omega),pushed]
      rfl
  unfold decimalLen
  split
  · rename_i zero
    subst zero
    decide
  · rename_i positive
    exact count positive

end Digits

section Lines

/-- The exact names that a head gives its own value, or that the proxy keeps to itself. -/
def isReplaced (name : List UInt8) : Bool :=
  [ascii "host",ascii "content-length",ascii "transfer-encoding",ascii "connection",ascii "forwarded"].contains name ||
    (ascii "x-forwarded-").isPrefixOf name

/-- The names of a hop that no head may hold. -/
def isForbidden (name : List UInt8) : Bool :=
  [ascii "proxy-connection",ascii "keep-alive",ascii "te",ascii "trailer",ascii "upgrade",ascii "proxy-authenticate",
    ascii "proxy-authorization"].contains name

def renderHost : Host → List UInt8
  | .name text => text
  | .ipv6 address => 0x5b :: (address ++ [0x5d])

def renderEndpoint (endpoint : Endpoint) : List UInt8 :=
  match endpoint.port with
  | some port => renderHost endpoint.host ++ 0x3a :: decimal port
  | none => renderHost endpoint.host

def keptFields (headers : SanitizedHeaders) : List HeaderField := headers.fields.filter fun field => !isReplaced field.name

def forwardingFields (forwarding : ForwardingResult) : List HeaderField :=
  (forwardingNames.zip (forwardingValues forwarding)).map fun (name,value) => ⟨name,value⟩

def framingFields : BodyFraming → List HeaderField
  | .none => []
  | .contentLength length => [⟨ascii "Content-Length",decimal length⟩]
  | .chunked => [⟨ascii "Transfer-Encoding",ascii "chunked"⟩]

/-- The fields of a head in their order. -/
def headFields (endpoint : Endpoint) (headers : SanitizedHeaders) (framing : BodyFraming) (forwarding : ForwardingResult) :
    List HeaderField :=
  ⟨ascii "Host",renderEndpoint endpoint⟩ :: (keptFields headers ++ (forwardingFields forwarding ++
    (framingFields framing ++ [⟨ascii "Connection",ascii "close"⟩])))

def requestLine (method pathAndQuery : List UInt8) : List UInt8 :=
  method.map toAsciiUppercase ++ 0x20 :: (pathAndQuery ++ ascii " HTTP/1.1")

def fieldLine (field : HeaderField) : List UInt8 := field.name ++ 0x3a :: 0x20 :: field.value

/-- A head of a request line and fields, with its blank line. -/
def wireHead (request : List UInt8) (fields : List HeaderField) : List UInt8 :=
  wire (request :: fields.map fieldLine) ++ [0x0d,0x0a]

theorem wire_append (front back : List (List UInt8)) : wire (front ++ back) = wire front ++ wire back :=
  List.flatMap_append

theorem text_colon : ascii ": " = [0x3a,0x20] := rfl

theorem text_crlf : ascii "\r\n" = [0x0d,0x0a] := rfl

theorem text_host : ascii "Host: " = ascii "Host" ++ [0x3a,0x20] := rfl

theorem text_length : ascii "Content-Length: " = ascii "Content-Length" ++ [0x3a,0x20] := rfl

theorem text_chunked : ascii "Transfer-Encoding: chunked\r\n" = wire [fieldLine ⟨ascii "Transfer-Encoding",ascii "chunked"⟩] := by
  decide

theorem text_lengths : (ascii " HTTP/1.1\r\n").length = 11 ∧ (ascii "Host: ").length = 6 ∧ (ascii "Host: \r\n").length = 8 ∧
    (ascii "Content-Length: \r\n").length = 18 ∧ (ascii "Transfer-Encoding: chunked\r\n").length = 28 ∧
    (ascii "Connection: close\r\n\r\n").length = 21 := by
  decide

def hostLength : Host → Nat
  | .name text => text.length
  | .ipv6 address => address.length + 2

theorem renderEndpoint_length (endpoint : Endpoint) : (renderEndpoint endpoint).length =
    hostLength endpoint.host + endpoint.port.elim 0 fun port => 1 + (decimal port).length := by
  unfold renderEndpoint renderHost hostLength
  cases endpoint.host <;> cases endpoint.port <;> simp <;> omega

theorem kept_fold {S : Type} {headers : SanitizedHeaders} {keep : HeaderField → Bool}
    (same : ∀ field ∈ headers.fields, keep field = !isReplaced field.name) (step : S → HeaderField → S) (state : S) :
    headers.fields.foldl (fun state field => if keep field then step state field else state) state =
      (keptFields headers).foldl step state := by
  rw [keptFields,← List.filter_congr same,List.foldl_filter]

theorem appendField_wire (output name value : List UInt8) :
    appendField output name value = output ++ wire [fieldLine ⟨name,value⟩] := by
  simp [appendField,wire,fieldLine,text_colon,text_crlf]

theorem appendField_fold (fields : List HeaderField) (output : List UInt8) :
    fields.foldl (fun bytes field => appendField bytes field.name field.value) output = output ++ wire (fields.map fieldLine) := by
  induction fields generalizing output with
  | nil => exact (List.append_nil output).symm
  | cons field fields ih =>
    rw [List.foldl_cons,ih,appendField_wire,List.append_assoc,← wire_append]
    rfl

theorem fieldLine_length (field : HeaderField) : (wire [fieldLine field]).length = field.name.length + 2 + field.value.length + 2 := by
  simp [wire,fieldLine]
  omega

theorem fieldLength_fold (fields : List HeaderField) (total : Nat) :
    fields.foldl (fun total field => total + (field.name.length + 2 + field.value.length + 2)) total =
      total + (wire (fields.map fieldLine)).length := by
  induction fields generalizing total with
  | nil => rfl
  | cons field fields ih =>
    rw [List.foldl_cons,ih,List.map_cons,← List.singleton_append,wire_append,List.length_append,fieldLine_length]
    omega

theorem framing_length (framing : BodyFraming) : (wire ((framingFields framing).map fieldLine)).length =
    match framing with
    | .none => 0
    | .contentLength length => 18 + (decimal length).length
    | .chunked => 28 := by
  cases framing with
  | none => rfl
  | contentLength length =>
    rw [framingFields,List.map_cons,List.map_nil,fieldLine_length]
    change 14 + 2 + (decimal length).length + 2 = 18 + (decimal length).length
    omega
  | chunked => rfl

theorem requestLine_length (method path : List UInt8) :
    (requestLine method path ++ [0x0d,0x0a]).length = method.length + 1 + path.length + 11 := by
  simp [requestLine,ascii]
  omega

theorem wireHead_parts (method path : List UInt8) (endpoint : Endpoint) (headers : SanitizedHeaders) (framing : BodyFraming)
    (forwarding : ForwardingResult) : wireHead (requestLine method path) (headFields endpoint headers framing forwarding) =
      requestLine method path ++ [0x0d,0x0a] ++ wire [fieldLine ⟨ascii "Host",renderEndpoint endpoint⟩] ++
        wire ((keptFields headers).map fieldLine) ++ wire ((forwardingFields forwarding).map fieldLine) ++
        wire ((framingFields framing).map fieldLine) ++ ascii "Connection: close\r\n\r\n" := by
  have closing : wire [fieldLine ⟨ascii "Connection",ascii "close"⟩] ++ [0x0d,0x0a] = ascii "Connection: close\r\n\r\n" := by
    decide
  rw [← closing]
  simp only [wireHead,headFields,wire,List.map_cons,List.map_append,List.flatMap_cons,List.flatMap_append,List.flatMap_nil,
    List.map_nil,List.append_assoc,List.append_nil]

theorem wireHead_length (method path : List UInt8) (endpoint : Endpoint) (headers : SanitizedHeaders) (framing : BodyFraming)
    (forwarding : ForwardingResult) : (wireHead (requestLine method path) (headFields endpoint headers framing forwarding)).length =
      method.length + 1 + path.length + 11 + (8 + (renderEndpoint endpoint).length) +
        (wire ((keptFields headers).map fieldLine)).length + (wire ((forwardingFields forwarding).map fieldLine)).length +
        (wire ((framingFields framing).map fieldLine)).length + 21 := by
  have host : (wire [fieldLine ⟨ascii "Host",renderEndpoint endpoint⟩]).length = 8 + (renderEndpoint endpoint).length := by
    rw [fieldLine_length]
    change 4 + 2 + (renderEndpoint endpoint).length + 2 = _
    omega
  rw [wireHead_parts]
  simp only [List.length_append]
  rw [← List.length_append,requestLine_length,host]
  rfl

end Lines

section Reference

def isLowerToken (byte : UInt8) : Bool := isTchar byte && !isAsciiUppercase byte

def isCanonicalName (name : List UInt8) : Bool := !name.isEmpty && name.length ≤ fieldNameLimit && name.all isLowerToken

def hasBlankEdge (value : List UInt8) : Bool := value.head?.any isOws || value.getLast?.any isOws

/-- A field that may stand in a sanitized list. -/
def isEndToEnd (field : HeaderField) : Bool :=
  isCanonicalName field.name && field.value.length ≤ fieldValueLimit && field.value.all isValueByte &&
    !hasBlankEdge field.value && !isForbidden field.name

def isSanitized (headers : SanitizedHeaders) : Bool :=
  headers.fields.length ≤ fieldLimit && headers.fields.all isEndToEnd && increasingNames isCanonicalName none headers.removedNames

def isMethod (method : List UInt8) : Bool := !method.isEmpty && method.length ≤ methodLimit && method.all isLowerToken

def isFramed : BodyFraming → Bool
  | .contentLength length => length ≤ bodyLimit
  | _ => true

def isDnsName (value : List UInt8) : Bool := !value.isEmpty && value.length ≤ 253 && (value.splitOn 0x2e).all isDnsLabel

def checkDns (value : List UInt8) : Result Unit := ensure (isDnsName value)

/-- What the implementations judge differently: the target and the lists of the forwarding values. -/
structure Judge where
  target : NormalizedTarget → Endpoint → Result Unit
  list : List UInt8 → Bool

/-- Four implementations compare an absolute target with the host of the head and split a list at each comma. -/
def plainJudge : Judge where
  target target endpoint := do
    validateForm checkDns target endpoint
    validatePath target.pathAndQuery target.routingPath
  list := validForwardingValue

/-- The double sink knows no such comparison, refuses escaped separators in a query and knows quotes in a list. -/
def quotedJudge : Judge where
  target target _ := CanonicalHeadDualSink.validateTarget target
  list := CanonicalHeadDualSink.validForwardingValue

def boundedHead (bytes : List UInt8) (framing : BodyFraming) : Result CanonicalRequestHead :=
  if bytes.length > headLimit then headTooLong bytes.length else .ok ⟨bytes,framing⟩

/-- The head of the requests that a judge accepts. -/
def construct (judge : Judge) (method : List UInt8) (target : NormalizedTarget) (authority : EffectiveAuthority)
    (headers : SanitizedHeaders) (framing : BodyFraming) (forwarding : ForwardingResult) : Result CanonicalRequestHead := do
  ensure (isMethod method)
  let host ← effectiveHost checkDns authority
  judge.target target ⟨host,authority.port⟩
  ensure (isSanitized headers)
  ensure (isFramed framing)
  ensure ((forwardingValues forwarding).all judge.list)
  boundedHead (wireHead (requestLine method target.pathAndQuery) (headFields ⟨host,authority.port⟩ headers framing forwarding)) framing

end Reference
end Polyguard.CanonicalHead
