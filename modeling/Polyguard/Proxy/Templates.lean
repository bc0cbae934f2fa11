import Polyguard.Proxy.Faults

/-! Configured header values: literal text with variables of the request. -/
namespace Polyguard.Proxy
open Ascii

structure TemplateContext where
  host : List UInt8
  httpHost : List UInt8
  remoteAddr : List UInt8
  scheme : List UInt8
  requestUri : List UInt8
  proxyAddXForwardedFor : List UInt8
deriving DecidableEq, Repr

structure HeaderValueConfig where
  name : List UInt8
  value : List UInt8
  always : Bool
  methods : List (List UInt8)
deriving DecidableEq, Repr

def maxHeaderValueBytes : Nat := 8192

def templateReplacement (named : List UInt8) (context : TemplateContext) : Outcome (List UInt8) :=
  if named = ascii "$host" then .ok context.host
  else if named = ascii "$http_host" then .ok context.httpHost
  else if named = ascii "$remote_addr" then .ok context.remoteAddr
  else if named = ascii "$scheme" then .ok context.scheme
  else if named = ascii "$request_uri" then .ok context.requestUri
  else if named = ascii "$proxy_add_x_forwarded_for" then .ok context.proxyAddXForwardedFor
  else .error .internal

def isVariableByte (byte : UInt8) : Bool := isAsciiAlphanumeric byte || byte == 0x5f

def boundedLength (length more max : Nat) : Outcome Nat := if length + more ≤ max then .ok (length + more) else .error .tooLarge

/-- The loop of `rendered_template_length` with the literal bytes since the last variable. -/
def renderedTemplateLengthLoop (context : TemplateContext) (max : Nat) (literal length : Nat) (text : List UInt8) : Outcome Nat :=
  match text with
  | [] => boundedLength length literal max
  | byte :: rest =>
    if byte ≠ 0x24 then renderedTemplateLengthLoop context max (literal + 1) length rest
    else do
      let length ← boundedLength length literal max
      let replacement ← templateReplacement (byte :: rest.takeWhile isVariableByte) context
      let length ← boundedLength length replacement.length max
      renderedTemplateLengthLoop context max 0 length (rest.dropWhile isVariableByte)
termination_by text.length
decreasing_by
  · simp
  · exact Nat.lt_succ_of_le (List.dropWhile_sublist _).length_le

def renderedTemplateLength (value : List UInt8) (context : TemplateContext) (max : Nat) : Outcome Nat :=
  renderedTemplateLengthLoop context max 0 0 value

/-- The loop of `render_template` with the text rendered so far. -/
def renderTemplateLoop (context : TemplateContext) (rendered text : List UInt8) : Outcome (List UInt8) :=
  match text with
  | [] => .ok rendered
  | byte :: rest =>
    if byte ≠ 0x24 then renderTemplateLoop context (rendered ++ [byte]) rest
    else do
      let replacement ← templateReplacement (byte :: rest.takeWhile isVariableByte) context
      renderTemplateLoop context (rendered ++ replacement) (rest.dropWhile isVariableByte)
termination_by text.length
decreasing_by
  · simp
  · exact Nat.lt_succ_of_le (List.dropWhile_sublist _).length_le

def renderTemplate (value : List UInt8) (context : TemplateContext) (max : Nat) : Outcome (List UInt8) := do
  let _ ← renderedTemplateLength value context max
  let rendered ← renderTemplateLoop context [] value
  if rendered.any (fun byte => byte == 0x0d || byte == 0x0a || byte == 0) then .error .internal else .ok rendered

def headerApplies (header : HeaderValueConfig) (method : List UInt8) (status : Nat) : Bool :=
  (header.methods.isEmpty || header.methods.any (eqIgnoreAsciiCase · method)) &&
    (header.always || [200,201,204,206,301,302,303,304,307,308].contains status)

def renderHeaders (context : TemplateContext) : List HeaderValueConfig → Outcome (List HeaderField)
  | [] => .ok []
  | header :: headers => do
    let value ← renderTemplate header.value context maxHeaderValueBytes
    let fields ← renderHeaders context headers
    return ⟨header.name,value⟩ :: fields

def renderResponseHeaders (configured : List HeaderValueConfig) (context : TemplateContext) (method : List UInt8) (status : Nat) :
    Outcome (List HeaderField) :=
  renderHeaders context (configured.filter (headerApplies · method status))

end Polyguard.Proxy
