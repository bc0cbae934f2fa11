import Polyguard.Proxy.Config
import Polyguard.Bytes.AddressText
import Polyguard.Collections.Ledger

/-! The directives of an Nginx configuration and what the translator reads in one of them.
A directive is a name with arguments and, for a block, the directives inside it. The
translator knows some of the names; a match on a name is a match on its keyword. -/
namespace Polyguard.Nginx
open Ascii Slices Decimal Proxy

structure Directive where
  name : List UInt8
  args : List (List UInt8)
  children : List Directive
  path : List UInt8
  line : Nat

structure CompatibilityIssue where
  path : List UInt8
  line : Nat
  directive : List UInt8
  message : List UInt8
deriving DecidableEq, Repr

/-- The error of a call of the file system is its text. -/
inductive NginxError where
  | ioError (path source : List UInt8)
  | syntaxError (path : List UInt8) (line : Nat) (message : List UInt8)
  | unsupported (issues : List CompatibilityIssue)
  | invalid (message : List UInt8)
deriving DecidableEq, Repr

/-- The directives that the translation of servers and locations acts on. -/
inductive Keyword where
  | listen
  | serverName
  | root
  | aliases
  | index
  | errorPage
  | clientMaxBodySize
  | sslCertificate
  | sslCertificateKey
  | addHeader
  | deny
  | returns
  | condition
  | location
  | tryFiles
  | proxyPass
  | proxySetHeader
  | proxyHttpVersion
  | proxyRedirect
  | other
deriving DecidableEq, Repr

def keywords : List (List UInt8 × Keyword) :=
  [(ascii "listen",.listen),(ascii "server_name",.serverName),(ascii "root",.root),(ascii "alias",.aliases),
    (ascii "index",.index),(ascii "error_page",.errorPage),(ascii "client_max_body_size",.clientMaxBodySize),
    (ascii "ssl_certificate",.sslCertificate),(ascii "ssl_certificate_key",.sslCertificateKey),
    (ascii "add_header",.addHeader),(ascii "deny",.deny),(ascii "return",.returns),(ascii "if",.condition),
    (ascii "location",.location),(ascii "try_files",.tryFiles),(ascii "proxy_pass",.proxyPass),
    (ascii "proxy_set_header",.proxySetHeader),(ascii "proxy_http_version",.proxyHttpVersion),
    (ascii "proxy_redirect",.proxyRedirect)]

def Directive.keyword (directive : Directive) : Keyword :=
  ((keywords.find? fun entry => entry.1 == directive.name).map (·.2)).getD .other

/-- The directives of a name, in the order they are written. -/
def inherited (directives : List Directive) (name : List UInt8) : List Directive :=
  directives.filter fun directive => directive.name == name

section Values

def usizeMax : Nat := 18446744073709551615

/-- A size with its unit, as far as a `usize` holds it. -/
def parseSize (value : List UInt8) : Option Nat := do
  let amount ← parseUnsigned usizeMax (value.takeWhile isAsciiDigit)
  let unit := (value.dropWhile isAsciiDigit).map toAsciiLowercase
  let multiplier ← if unit == [] then some 1
    else if unit == ascii "k" then some 1024
    else if unit == ascii "m" then some 1048576
    else if unit == ascii "g" then some 1073741824
    else none
  if amount * multiplier ≤ usizeMax then some (amount * multiplier) else none

structure ListenSpec where
  address : SocketAddr
  tls : Bool
  isDefault : Bool
deriving DecidableEq, Repr

def listenFlags : List (List UInt8) := [ascii "ssl",ascii "default",ascii "default_server",ascii "ipv6only=on"]

def listenAddress (endpoint : List UInt8) : Option SocketAddr :=
  if endpoint.all isAsciiDigit then parseSocketAddr (ascii "0.0.0.0:" ++ endpoint)
  else match stripPrefix (ascii "*:") endpoint with
    | some port => parseSocketAddr (ascii "0.0.0.0:" ++ port)
    | none => parseSocketAddr endpoint

def parseListen (directive : Directive) : Option ListenSpec :=
  match directive.args with
  | [] => none
  | endpoint :: flags =>
    if !flags.all listenFlags.contains then none
    else (listenAddress endpoint).map fun address =>
      ⟨address,flags.contains (ascii "ssl"),flags.any fun flag => flag == ascii "default" || flag == ascii "default_server"⟩

def headerFromAdd (directive : Directive) (methods : List (List UInt8)) : Option HeaderValueConfig :=
  match directive.args with
  | [name,value] => some ⟨name.map toAsciiLowercase,value,false,methods⟩
  | [name,value,flag] => some ⟨name.map toAsciiLowercase,value,flag == ascii "always",methods⟩
  | _ => none

def textContentType : List UInt8 := ascii "text/plain; charset=utf-8"

def returnAction (directive : Directive) : Option RouteActionConfig := do
  let status ← directive.args.head?.bind (parseUnsigned u16Max)
  if [301,302,303,307,308].contains status then directive.args[1]?.map (.redirect status)
  else if 200 ≤ status && status ≤ 599 && directive.args.length ≤ 2 then
    some (.respond status (directive.args[1]?.getD []) textContentType)
  else none

/-- The arguments without the parenthesis that opens them. -/
def openedParts : List (List UInt8) → Option (List (List UInt8))
  | [] => none
  | first :: parts => if first == ascii "(" then some parts else (stripPrefix (ascii "(") first).map (· :: parts)

/-- The arguments without the parenthesis that closes them. -/
def closedParts (parts : List (List UInt8)) : Option (List (List UInt8)) :=
  match parts.getLast? with
  | none => none
  | some last => if last == ascii ")" then some parts.dropLast else (stripSuffix 0x29 last).map fun last => parts.dropLast ++ [last]

structure Condition where
  name : List UInt8
  operator : List UInt8
  value : List UInt8
deriving DecidableEq, Repr

def ifCondition (directive : Directive) : Option Condition := do
  let parts ← openedParts directive.args
  match ← closedParts parts with
  | [name,operator,value] => some ⟨name,operator,value⟩
  | _ => none

def parseProxyPass (value : List UInt8) : Option (SocketAddr × Option (List UInt8)) := do
  let remainder ← stripPrefix (ascii "http://") value
  let (authority,uri) := match splitOnce 0x2f remainder with
    | some (authority,path) => (authority,some (0x2f :: path))
    | none => (remainder,none)
  if uri.any fun uri => uri.any fun byte => byte == 0x3f || byte == 0x23 then none
  else (parseSocketAddr authority).map (·,uri)

/-- `Display` of a socket address. -/
def displaySocketAddr (address : SocketAddr) : List UInt8 :=
  match address.ip with
  | .v4 octets => Address.displayIpv4 octets ++ ascii ":" ++ decimal address.port
  | .v6 segments => ascii "[" ++ Address.displayIpv6 segments ++
      (if address.scopeId = 0 then [] else ascii "%" ++ decimal address.scopeId) ++ ascii "]:" ++ decimal address.port

end Values

end Polyguard.Nginx
