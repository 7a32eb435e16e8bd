import CertEnrollment.Encoding.Base64
import CertEnrollment.Url.Basic

/-!
# HTTP exchanges

A request and what may come back: a response with a status, or no response at all.
-/
namespace CertEnrollment.Http

inductive Method where
  | get
  | post
  | delete
  deriving DecidableEq, Repr

def Method.word : Method → String
  | get => "GET"
  | post => "POST"
  | delete => "DELETE"

structure Request where
  method : Method
  url : Url
  contentType : Option String
  authorization : Option String
  userAgent : Option String
  body : String
  deriving DecidableEq, Repr

structure Response where
  status : Nat
  body : List UInt8
  deriving DecidableEq, Repr

namespace Response

def isSuccess (r : Response) : Bool := 200 ≤ r.status && r.status < 300

theorem isSuccess_iff {r : Response} : r.isSuccess = true ↔ 200 ≤ r.status ∧ r.status < 300 := by
  rw [isSuccess, Bool.and_eq_true, decide_eq_true_eq, decide_eq_true_eq]

/-- The body as text; ill-formed bytes become replacement characters. -/
def text (r : Response) : String := Utf8.decodeLossy r.body

end Response

/-- Why there is no response. -/
inductive Failure where
  /-- The request could not be sent, or no answer came. -/
  | noAnswer
  /-- No request can be made to the URL. -/
  | unusable (url : String)
  | badUrl
  deriving DecidableEq, Repr

def Failure.message : Failure → String
  | noAnswer => "error sending request"
  | unusable url => "builder error for url (" ++ url ++ ")"
  | badUrl => "builder error"

/-- Name and secret as the value of an authorization header. -/
def basicAuth (username password : String) : String :=
  "Basic " ++ Base64.encode (Utf8.encode (username ++ ":" ++ password))

/-- Whether a request can be made to a URL. Some characters that a host may have do not
fit into a request. -/
def isUsable (u : Url) : Bool :=
  (u.scheme == "http" || u.scheme == "https") &&
    (u.host.getD "").toList.all fun c => !(['"', '\x60', '\x7b', '\x7d'].contains c)

/-- Whether a text may be the value of a header: it has no control character but tabs. -/
def isHeaderValue (s : String) : Bool := s.toList.all fun c => c == '\t' || !Url.isControl c

/-- Makes a request ready for the wire. User information in the URL becomes an
authorization header, unless there is one, and leaves the URL. -/
def Request.prepare (r : Request) : Except Failure Request :=
  let decode (part : String) : String := Utf8.decodeLossy (Url.percentDecode part)
  let url := { r.url with username := "", password := "" }
  let fromUrl :=
    if r.url.username.isEmpty ∧ r.url.password.isEmpty then none
    else some (basicAuth (decode r.url.username) (decode r.url.password))
  if isUsable url then
    .ok { r with url, authorization := r.authorization.orElse fun _ => fromUrl }
  else .error (.unusable url.write)

end CertEnrollment.Http
