import CertEnrollment.Authority.Certificate
import CertEnrollment.Authority.Challenge
import CertEnrollment.Authority.Download
import CertEnrollment.Http
import CertEnrollment.Interaction
import CertEnrollment.Json.Reader

/-!
# Client of the certificate authority

Four calls over HTTP: create a certificate, have its challenges checked, get its record,
download it. The access key travels in the query of every request.
-/
namespace CertEnrollment.Authority
open Data

/-- An account at the authority. -/
structure Client where
  accessKey : String
  baseUrl : String
  userAgent : String
  deriving DecidableEq, Repr

/-- Interactions with the authority that may fail. -/
abbrev ClientAction :=
  ExceptT Error (Interaction Http.Request fun _ => Except Http.Failure Http.Response)

namespace Client

/-- The address of the authority. -/
def defaultBaseUrl : String := "https://api.zerossl.com"

def defaultUserAgent : String := "zerossl-rust/0.3.0"

/-- How many days a certificate is asked to be valid for. -/
def defaultValidityDays : Nat := 90

/-- An account with a key; what is not given has its default. The user agent has to be
one that a header can name. -/
def make (accessKey : String) (baseUrl userAgent : Option String) : Except Error Client :=
  let userAgent := userAgent.getD defaultUserAgent
  if accessKey.isEmpty then .error (.config "access key is empty")
  else if !Http.isHeaderValue userAgent then
    .error (.config ("failed to build HTTP client: " ++ Http.Failure.badUrl.message))
  else .ok ⟨accessKey, baseUrl.getD defaultBaseUrl, userAgent⟩

/-- The URL of a path, with the access key in its query. -/
def url (c : Client) (path : String) : Except Error Url :=
  match Url.parse? (Text.trimEnd '/' c.baseUrl ++ path) with
  | none => .error (.invalidUrl "not an absolute URL")
  | some u => .ok (u.appendPairs [("access_key", c.accessKey)])

/-! ## Answers -/

/-- The kind of error in an error body: the text at `error`, `type`, or else the body. -/
def errorText (body : String) : String :=
  let kind := do
    let v ← Json.parseValue? body
    (← (← v.member? "error").member? "type").text?
  kind.getD body

/-- The error of an answer outside 2xx. -/
def errorOf (status : Nat) (body : String) : Error :=
  if status = 401 then .unauthorized
  else if status = 404 then .notFound (errorText body)
  else if status = 429 then .rateLimited
  else .api status (errorText body)

/-- The value in the body of an answer. -/
def bodyOf (r : Http.Response) : Except Error Value :=
  if r.isSuccess then
    match Json.parseValue? r.text with
    | some v => .ok v
    | none => .error (.json .malformed)
  else .error (errorOf r.status r.text)

/-- Reads a record from a body that is no refusal. -/
def decode {α : Type} (read : Tree → Reading α) (body : Value) : Except Error α :=
  match Failure.detect body with
  | some f => .error f.error
  | none => (read body.tree).mapError .json

/-! ## Calls -/

/-- Sends a request and gives the value that comes back. A form makes it a post. -/
def send (c : Client) (path : String) (form : Option (List (String × String))) :
    ClientAction Value :=
  match c.url path with
  | .error e => throw e
  | .ok url =>
    let request : Http.Request := {
      method := if form.isSome then .post else .get
      url
      contentType := form.map fun _ => "application/x-www-form-urlencoded"
      authorization := none
      userAgent := some c.userAgent
      body := (form.map fun pairs => String.ofList (Url.encodeForm pairs)).getD "" }
    match request.prepare with
    | .error f => throw (.http f.message)
    | .ok request => ExceptT.mk (.ask request fun r =>
        .done (match r with
          | .error f => .error (.http f.message)
          | .ok response => bodyOf response))

/-- Sends a request and reads a record from what comes back. -/
def fetch {α : Type} (c : Client) (read : Tree → Reading α) (path : String)
    (form : Option (List (String × String))) : ClientAction α := do
  let body ← c.send path form
  ExceptT.mk (.done (decode read body))

/-- The form that orders a certificate. -/
def orderForm (domains : List String) (csr : String) (validityDays : Nat) :
    List (String × String) :=
  [("certificate_domains", Text.join "," domains),
    ("certificate_validity_days", toString validityDays), ("certificate_csr", csr)]

def create (c : Client) (domains : List String) (csr : String) (validityDays : Nat) :
    ClientAction Certificate :=
  c.fetch Certificate.read "/certificates" (some (orderForm domains csr validityDays))

/-- Has the challenges of a certificate checked. The answer is not searched for a
refusal, since a failed check looks like one. -/
def verify (c : Client) (id : String) (method : ChallengeMethod) :
    ClientAction VerificationOutcome := do
  let body ← c.send ("/certificates/" ++ id ++ "/challenges")
    (some [("validation_method", method.word)])
  return .ofBody body

def get (c : Client) (id : String) : ClientAction Certificate :=
  c.fetch Certificate.read ("/certificates/" ++ id) none

def download (c : Client) (id : String) : ClientAction Download :=
  c.fetch Download.read ("/certificates/" ++ id ++ "/download/return") none

end Client
end CertEnrollment.Authority
