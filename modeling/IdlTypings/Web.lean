import IdlTypings.Url

/-!
# Pages of the web

A page is asked for by its address. The reply may send the reader on to another address, which is
followed, up to ten requests in all.
-/

namespace IdlTypings.Web

structure Reply where
  status : Nat
  contentType : Text
  location : Text
  body : Text
  deriving DecidableEq, Inhabited, Repr

def reason : Nat → String
  | 100 => "Continue"
  | 101 => "Switching Protocols"
  | 102 => "Processing"
  | 103 => "Early Hints"
  | 200 => "OK"
  | 201 => "Created"
  | 202 => "Accepted"
  | 203 => "Non-Authoritative Information"
  | 204 => "No Content"
  | 205 => "Reset Content"
  | 206 => "Partial Content"
  | 207 => "Multi-Status"
  | 208 => "Already Reported"
  | 226 => "IM Used"
  | 300 => "Multiple Choices"
  | 301 => "Moved Permanently"
  | 302 => "Found"
  | 303 => "See Other"
  | 304 => "Not Modified"
  | 305 => "Use Proxy"
  | 307 => "Temporary Redirect"
  | 308 => "Permanent Redirect"
  | 400 => "Bad Request"
  | 401 => "Unauthorized"
  | 402 => "Payment Required"
  | 403 => "Forbidden"
  | 404 => "Not Found"
  | 405 => "Method Not Allowed"
  | 406 => "Not Acceptable"
  | 407 => "Proxy Authentication Required"
  | 408 => "Request Timeout"
  | 409 => "Conflict"
  | 410 => "Gone"
  | 411 => "Length Required"
  | 412 => "Precondition Failed"
  | 413 => "Request Entity Too Large"
  | 414 => "Request URI Too Long"
  | 415 => "Unsupported Media Type"
  | 416 => "Requested Range Not Satisfiable"
  | 417 => "Expectation Failed"
  | 418 => "I'm a teapot"
  | 421 => "Misdirected Request"
  | 422 => "Unprocessable Entity"
  | 423 => "Locked"
  | 424 => "Failed Dependency"
  | 425 => "Too Early"
  | 426 => "Upgrade Required"
  | 428 => "Precondition Required"
  | 429 => "Too Many Requests"
  | 431 => "Request Header Fields Too Large"
  | 451 => "Unavailable For Legal Reasons"
  | 500 => "Internal Server Error"
  | 501 => "Not Implemented"
  | 502 => "Bad Gateway"
  | 503 => "Service Unavailable"
  | 504 => "Gateway Timeout"
  | 505 => "HTTP Version Not Supported"
  | 506 => "Variant Also Negotiates"
  | 507 => "Insufficient Storage"
  | 508 => "Loop Detected"
  | 510 => "Not Extended"
  | 511 => "Network Authentication Required"
  | _ => ""

def statusLine (status : Nat) : Text := Text.concat [Text.ofNat status, " ", reason status]

def Reply.isMove (r : Reply) : Bool :=
  (r.status = 301 || r.status = 302 || r.status = 303 || r.status = 307 || r.status = 308) &&
    !r.location.isEmpty

/-- The wording of a request that failed, at an address that is shown. -/
def failure (shown message : Text) : Text := Text.concat ["Get ", shown.quoted, ": ", message]

def maxRequests : Nat := 10

section

variable {m : Type → Type} [Monad m]

/-- Makes requests with `get` until a reply does not send the reader on; `left` more of them may be
made. The answer is the reply with the address it came from. -/
def requestOn (get : Url → m (Except Text Reply)) (left : Nat) (address : Url) :
    m (Except Text (Url × Reply)) := do
  match ← get address with
  | .error message => return .error (failure address.shown message)
  | .ok reply =>
    if !reply.isMove then return .ok (address, reply)
    match Url.parse reply.location with
    | .error fault =>
      return .error <| failure address.shown <|
        Text.concat
          ["failed to parse Location header ", reply.location.quoted, ": ", Url.faultMessage fault]
    | .ok reference =>
      match left with
      | 0 =>
        return .error <| failure reply.location <|
          Text.concat ["stopped after ", Text.ofNat maxRequests, " redirects"]
      | left + 1 => requestOn get left (address.resolve reference)

def request (get : Url → m (Except Text Reply)) (address : Url) : m (Except Text (Url × Reply)) :=
  requestOn get (maxRequests - 1) address

end

end IdlTypings.Web
