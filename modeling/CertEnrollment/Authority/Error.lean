import CertEnrollment.Data.Record

/-!
# Errors of the certificate authority

Why a call to the authority gave no answer, and the failure envelope by which the
authority refuses a request although the exchange itself went well.
-/
namespace CertEnrollment.Authority
open Data

inductive Error where
  | unauthorized
  | rateLimited
  | notFound (resource : String)
  /-- Any other status outside 2xx. -/
  | api (code : Nat) (message : String)
  /-- A failure envelope. -/
  | rejected (code : Int) (kind : String)
  /-- No answer was received. -/
  | http (reason : String)
  /-- The answer could not be read. -/
  | json (cause : ReadError)
  | invalidUrl (reason : String)
  | config (reason : String)
  deriving DecidableEq, Repr

namespace Error

def message : Error → String
  | unauthorized => "authentication failed: invalid access key"
  | rateLimited => "rate limit exceeded"
  | notFound resource => "resource not found: " ++ resource
  | api code message => "API error (" ++ toString code ++ "): " ++ message
  | rejected code kind =>
    "request rejected by the CA (" ++ toString code ++ "): " ++ kind
  | http reason => "HTTP request failed: " ++ reason
  | json cause => "JSON error: " ++ cause.message
  | invalidUrl reason => "invalid URL: " ++ reason
  | config reason => "configuration error: " ++ reason

/-- The exchange itself failed: no answer, or one outside 2xx. -/
def isTransport : Error → Bool
  | unauthorized | rateLimited | notFound _ | api _ _ | http _ => true
  | _ => false

def isAuthError : Error → Bool
  | unauthorized => true
  | _ => false

/-- The status of the answer, when it was an error status. -/
def statusCode : Error → Option Nat
  | unauthorized => some 401
  | rateLimited => some 429
  | notFound _ => some 404
  | api code _ => some code
  | _ => none

end Error

/-! ## The failure envelope -/

/-- What a failure envelope says about the failure. -/
structure FailureReason where
  code : Int
  kind : String
  deriving DecidableEq, Repr

/-- A refusal, with its reason when one can be read. -/
structure Failure where
  success : Bool
  reason : Option FailureReason
  deriving DecidableEq, Repr

/-- A signed integer of 64 bits. -/
def readCode : Tree → Reading Int := Tree.asInt leastInt greatestInt

def FailureReason.read (t : Tree) : Reading FailureReason := do
  let row ← Row.read false [field "code" readCode, field "type" Tree.asText] t
  return ⟨← row.optional "code" readCode 0, ← row.optional "type" Tree.asText ""⟩

def Failure.read (t : Tree) : Reading Failure := do
  let reason := Tree.asOption FailureReason.read
  let row ← Row.read false [field "success" Tree.asBool, field "error" reason] t
  return ⟨← row.required "success" Tree.asBool, ← row.optional "error" reason none⟩

/-- A body is a refusal exactly if it is an object whose `success` is false. A
refusal that cannot be read in full has no reason. -/
def Failure.detect (body : Value) : Option Failure :=
  if (body.member? "success").bind Value.bool? = some false then
    match Failure.read body.tree with
    | .ok f => some f
    | .error _ => some ⟨false, none⟩
  else none

/-- The error of a refusal: code zero without a reason, and a fixed word without a kind. -/
def Failure.error (f : Failure) : Error :=
  let reason := f.reason.getD ⟨0, ""⟩
  .rejected reason.code (if reason.kind = "" then "unknown_error" else reason.kind)

end CertEnrollment.Authority
