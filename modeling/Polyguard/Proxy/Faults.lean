import Polyguard.Model

/-! The faults of the proxy, with the code and the status of each. -/
namespace Polyguard.Proxy

inductive Fault where
  | protocol (error : PolyguardError)
  | disagreement (function : String)
  | timeout
  | upstreamTimeout
  | tooLarge
  | expectationFailed
  | busy
  | forbidden
  | clientClosed
  | clientIo
  | upstream
  | internal
deriving DecidableEq, Repr

abbrev Outcome (α : Type) := Except Fault α

def Fault.code : Fault → String
  | .protocol .ambiguousFraming => "ambiguous_framing"
  | .protocol .conflictingContentLength => "ambiguous_framing"
  | .protocol .invalidTransferEncoding => "ambiguous_framing"
  | .protocol .noRoute => "route_missing"
  | .protocol .unsupportedUpgrade => "policy_rejected"
  | .protocol .unsupportedVersion => "policy_rejected"
  | .protocol _ => "client_syntax"
  | .clientIo => "client_syntax"
  | .tooLarge => "client_syntax"
  | .expectationFailed => "client_syntax"
  | .clientClosed => "client_closed"
  | .busy => "overloaded"
  | .forbidden => "policy_rejected"
  | .disagreement _ => "implementation_disagreement"
  | .timeout => "timeout"
  | .upstreamTimeout => "timeout"
  | .upstream => "upstream_failure"
  | .internal => "internal_failure"

def Fault.status : Fault → Nat
  | .protocol .noRoute => 404
  | .protocol .unsupportedUpgrade => 501
  | .timeout => 408
  | .upstreamTimeout => 504
  | .tooLarge => 413
  | .protocol (.limitExceeded _ _ _) => 413
  | .expectationFailed => 417
  | .busy => 503
  | .forbidden => 403
  | .upstream => 502
  | .internal => 500
  | .clientClosed => 400
  | .protocol _ => 400
  | .disagreement _ => 400
  | .clientIo => 400

end Polyguard.Proxy
