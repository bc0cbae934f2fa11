import Polyguard.Proxy.Routes

/-! The actions that a route answers by itself: redirects, fixed responses and files.
The file system is a parameter; a path is the list of its bytes. -/
namespace Polyguard.Proxy
open Ascii Slices Decimal

section Compression

/-- The quality of a coding in thousandths. -/
def parseQuality (value : List UInt8) : Option Nat :=
  let (whole,fraction) := (splitOnce 0x2e value).getD (value,[])
  if fraction.length > 3 || !fraction.all isAsciiDigit then none
  else if whole = ascii "0" then
    let digit (index : Nat) : Nat := (fraction[index]?.map fun byte => (byte - 0x30).toNat).getD 0
    some (digit 0 * 100 + digit 1 * 10 + digit 2)
  else if whole = ascii "1" && fraction.all (· == 0x30) then some 1000
  else none

/-- The loop over the parameters of a coding. -/
def codingQuality (sawQuality : Bool) (quality : Option Nat) : List (List UInt8) → Option Nat
  | [] => quality
  | parameter :: parameters =>
    match splitOnce 0x3d (Text.trim parameter) with
    | none => none
    | some (name,value) =>
      if !eqIgnoreAsciiCase (Text.trim name) (ascii "q") || sawQuality then none
      else codingQuality true (parseQuality (Text.trim value)) parameters

/-- The best qualities of gzip and of the wildcard behind one more member. -/
def acceptMember (best : Option Nat × Option Nat) (item : List UInt8) : Option Nat × Option Nat :=
  match Utf8.fromUtf8 item with
  | none => best
  | some item =>
    let parts := (Text.trim item).splitOn 0x3b
    let coding := Text.trim (parts.headD [])
    if eqIgnoreAsciiCase coding (ascii "gzip") then
      (some (max (best.1.getD 0) ((codingQuality false (some 1000) parts.tail).getD 0)),best.2)
    else if coding = ascii "*" then
      (best.1,some (max (best.2.getD 0) ((codingQuality false (some 1000) parts.tail).getD 0)))
    else best

def clientAcceptsGzip (headers : HeaderBlock) : Bool :=
  let items := (headers.fields.filter fun field => field.name == ascii "accept-encoding").flatMap fun field =>
    field.value.splitOn 0x2c
  let best := items.foldl acceptMember (none,none)
  (best.1.or best.2).any (· != 0)

def addGzipHeaders (headers : List HeaderField) : List HeaderField :=
  let headers := headers ++ [⟨ascii "content-encoding",ascii "gzip"⟩]
  if headers.any fun header => header.name == ascii "vary" then headers
  else headers ++ [⟨ascii "vary",ascii "Accept-Encoding"⟩]

end Compression

section Responses

def reasonPhrase : Nat → String
  | 200 => "OK"
  | 201 => "Created"
  | 202 => "Accepted"
  | 204 => "No Content"
  | 206 => "Partial Content"
  | 301 => "Moved Permanently"
  | 302 => "Found"
  | 303 => "See Other"
  | 304 => "Not Modified"
  | 307 => "Temporary Redirect"
  | 308 => "Permanent Redirect"
  | 400 => "Bad Request"
  | 401 => "Unauthorized"
  | 403 => "Forbidden"
  | 404 => "Not Found"
  | 405 => "Method Not Allowed"
  | 410 => "Gone"
  | 413 => "Content Too Large"
  | 416 => "Range Not Satisfiable"
  | 429 => "Too Many Requests"
  | 500 => "Internal Server Error"
  | 502 => "Bad Gateway"
  | 503 => "Service Unavailable"
  | 504 => "Gateway Timeout"
  | _ => "Response"

def crlf : List UInt8 := [0x0d,0x0a]

/-- The bytes that `write_configured_response` writes. -/
def configuredResponse (status : Nat) (contentType body : List UInt8) (headers : List HeaderField) (headOnly close : Bool) :
    List UInt8 :=
  let bodyLength := if status = 204 ∨ status = 304 then 0 else body.length
  ascii "HTTP/1.1 " ++ decimal status ++ ascii " " ++ ascii (reasonPhrase status) ++ crlf ++ serverHeader ++
    headers.flatMap serializeField ++ ascii "content-type: " ++ contentType ++ crlf ++ ascii "content-length: " ++
    decimal bodyLength ++ crlf ++ ascii "connection: " ++ (if close then ascii "close" else ascii "keep-alive") ++
    crlf ++ crlf ++ (if !headOnly && bodyLength != 0 then body else [])

end Responses

section Files

/-- What the static action asks of the file system. An opened file has the length of its
metadata and the bytes that reading it gives. -/
structure FileSystem where
  canonicalize : List UInt8 → Option (List UInt8)
  isDir : List UInt8 → Bool
  isFile : List UInt8 → Bool
  openFile : List UInt8 → Option (Nat × Option (List UInt8))

structure StaticResponse where
  status : Nat
  contentType : List UInt8
  body : List UInt8
  account : Account
  headers : List HeaderField

/-- The text of a path behind its last dot, unless its name starts with that dot. -/
def extensionOf (path : List UInt8) : Option (List UInt8) :=
  let name := ((path.splitOn 0x2f).getLast?).getD []
  match rsplitOnce 0x2e name with
  | some (stem,extension) => if stem.isEmpty then none else some extension
  | none => none

def contentTypes : List (List (List UInt8) × List UInt8) :=
  [([ascii "html",ascii "htm"],ascii "text/html; charset=utf-8"),([ascii "css"],ascii "text/css; charset=utf-8"),
    ([ascii "js",ascii "mjs"],ascii "text/javascript; charset=utf-8"),([ascii "json"],ascii "application/json"),
    ([ascii "xml"],ascii "application/xml"),([ascii "txt",ascii "md"],ascii "text/plain; charset=utf-8"),
    ([ascii "svg"],ascii "image/svg+xml"),([ascii "png"],ascii "image/png"),([ascii "jpg",ascii "jpeg"],ascii "image/jpeg"),
    ([ascii "gif"],ascii "image/gif"),([ascii "webp"],ascii "image/webp"),([ascii "ico"],ascii "image/x-icon"),
    ([ascii "woff"],ascii "font/woff"),([ascii "woff2"],ascii "font/woff2"),([ascii "pdf"],ascii "application/pdf"),
    ([ascii "wasm"],ascii "application/wasm")]

def staticContentType (path : List UInt8) : List UInt8 :=
  let extension := ((extensionOf path).bind Utf8.fromUtf8).map (·.map toAsciiLowercase)
  ((contentTypes.find? fun row => extension.any row.1.contains).map (·.2)).getD (ascii "application/octet-stream")

/-- `Path::join` with a relative path. -/
def joinPath (path component : List UInt8) : List UInt8 :=
  if endsWith 0x2f path then path ++ component else path ++ 0x2f :: component

/-- `Path::starts_with`: the components of the root come first. -/
def pathStartsWith (path root : List UInt8) : Bool :=
  ((root.splitOn 0x2f).filter (!·.isEmpty)).isPrefixOf ((path.splitOn 0x2f).filter (!·.isEmpty))

/-- The loop of `static_candidate`. -/
def staticCandidateLoop : List UInt8 → List (List UInt8) → Option (List UInt8)
  | candidate,[] => some candidate
  | candidate,component :: components =>
    if component = ascii "." ∨ component = ascii ".." ∨ component.contains 0 then none
    else staticCandidateLoop (joinPath candidate component) components

def staticCandidate (root relative : List UInt8) : Option (List UInt8) :=
  staticCandidateLoop root ((relative.splitOn 0x2f).filter (!·.isEmpty))

variable (files : FileSystem)

def resolveStaticFile (root candidate : List UInt8) (indexes : List (List UInt8)) (tryFiles : Bool) : Option (List UInt8) := do
  let resolved ← files.canonicalize candidate
  if !pathStartsWith resolved root then none
  else if files.isDir resolved then
    if !tryFiles then none
    else indexes.findSome? fun index => do
      let canonical ← files.canonicalize (joinPath resolved index)
      if pathStartsWith canonical root && files.isFile canonical then some canonical else none
  else if files.isFile resolved then some resolved
  else none

/-- The file with its bytes, unless it is missing, too large or grows while it is read. -/
def readStaticFile (root candidate : List UInt8) (indexes : List (List UInt8)) (tryFiles : Bool) (maxBytes : Nat)
    (budgets : Nat → Memory.Budget) : Outcome (Option (List UInt8 × List UInt8 × Account)) :=
  match resolveStaticFile files root candidate indexes tryFiles with
  | none => .ok none
  | some file =>
    match files.openFile file with
    | none => .ok none
    | some (length,content) =>
      if length > maxBytes then .ok none
      else do
        let account ← Account.reserve budgets length
        match content with
        | none => return none
        | some bytes => return if bytes.length > length then none else some (file,bytes,account)

/-- The range of a file that the request asks for: `none` in the inner place is not satisfiable. -/
def requestedByteRange (headers : HeaderBlock) (length : Nat) : Option (Option (Nat × Nat)) :=
  match headers.fields.filter fun field => field.name == ascii "range" with
  | [] => none
  | [field] => do
    let value := Text.trim (← Utf8.fromUtf8 field.value)
    let range ← stripPrefix (ascii "bytes=") value
    if range.contains 0x2c || length == 0 then some none
    else do
      let (start,stop) ← splitOnce 0x2d range
      if start.isEmpty then do
        let suffix ← parseUnsigned u64Max stop
        if suffix = 0 then some none else some (some (length - suffix,length - 1))
      else do
        let start ← parseUnsigned u64Max start
        let stop ← if stop.isEmpty then some (length - 1) else (parseUnsigned u64Max stop).map (min · (length - 1))
        if length ≤ start ∨ stop < start then some none else some (some (start,stop))
  | _ => some none

def plainText : List UInt8 := ascii "text/plain; charset=utf-8"

/-- A response with a fixed text as its body. -/
def fixedResponse (status : Nat) (text : List UInt8) (budgets : Nat → Memory.Budget) : Outcome StaticResponse := do
  let account ← Account.reserve budgets text.length
  return ⟨status,plainText,text,account,[]⟩

/-- The response for a file that was found, as far as the request asks for it. -/
def fileResponse (headers : HeaderBlock) (path body : List UInt8) (account : Account) : StaticResponse :=
  let ranges : List HeaderField := [⟨ascii "accept-ranges",ascii "bytes"⟩]
  match requestedByteRange headers body.length with
  | none => ⟨200,staticContentType path,body,account,ranges⟩
  | some (some (start,stop)) =>
    ⟨206,staticContentType path,(body.drop start).take (stop - start + 1),account,
      ranges ++ [⟨ascii "content-range",ascii "bytes " ++ decimal start ++ ascii "-" ++ decimal stop ++ ascii "/" ++
        decimal body.length⟩]⟩
  | some none =>
    ⟨416,staticContentType path,[],account,ranges ++ [⟨ascii "content-range",ascii "bytes */" ++ decimal body.length⟩]⟩

def trimStartSlashes (path : List UInt8) : List UInt8 := path.dropWhile (· == 0x2f)

def serveStatic (route : RuntimeRoute) (target : NormalizedTarget) (method : List UInt8) (headers : HeaderBlock)
    (maxBytes : Nat) (budgets : Nat → Memory.Budget) : Outcome StaticResponse :=
  match route.action with
  | .files directory mapping index tryFiles errorPage404 =>
    let relative := match mapping with
      | .root => some (trimStartSlashes target.routingPath)
      | .alias => (stripPrefix route.path target.routingPath).map trimStartSlashes
    match relative.bind (staticCandidate directory) with
    | none => .error .internal
    | some candidate =>
      if !(method == ascii "get" || method == ascii "head") && (resolveStaticFile files directory candidate index tryFiles).isSome then
        fixedResponse 405 (ascii "method not allowed" ++ [0x0a]) budgets
      else do
        match ← readStaticFile files directory candidate index tryFiles maxBytes budgets with
        | some (path,body,account) => return fileResponse headers path body account
        | none =>
          match errorPage404 with
          | none => fixedResponse 404 (ascii "not found" ++ [0x0a]) budgets
          | some errorPage =>
            match staticCandidate directory (trimStartSlashes errorPage) with
            | none => .error .internal
            | some candidate => do
              match ← readStaticFile files directory candidate [] false maxBytes budgets with
              | some (path,body,account) => return ⟨404,staticContentType path,body,account,[]⟩
              | none => fixedResponse 404 (ascii "not found" ++ [0x0a]) budgets
  | _ => .error .internal

end Files

end Polyguard.Proxy
