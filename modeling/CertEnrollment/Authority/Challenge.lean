import CertEnrollment.Authority.Error
import CertEnrollment.Json.Writer

/-!
# Challenges

The methods of proving control over a domain, and the authority's answer when asked
to check a challenge.
-/
namespace CertEnrollment.Authority
open Data

inductive ChallengeMethod where
  /-- A file served by a web server of the domain. -/
  | http
  /-- A CNAME record in the DNS. -/
  | dns
  deriving DecidableEq, Repr

namespace ChallengeMethod

def word : ChallengeMethod → String
  | http => "HTTPS_CSR_HASH"
  | dns => "CNAME_CSR_HASH"

def ofWord? (s : String) : Option ChallengeMethod :=
  if s = "HTTPS_CSR_HASH" then some http
  else if s = "CNAME_CSR_HASH" then some dns
  else none

@[simp] theorem ofWord?_word (m : ChallengeMethod) : ofWord? m.word = some m := by
  cases m <;> rfl

/-- A method is written as its word, or as an object with that single name and null. -/
def read : Tree → Reading ChallengeMethod
  | .text (some s) => .ofOption (ofWord? s)
  | .object [(some s, .null)] => .ofOption (ofWord? s)
  | _ => .error .malformed

end ChallengeMethod

/-- What came of asking the authority to check a challenge. -/
inductive VerificationOutcome where
  | failed (details : String)
  /-- The challenge is met; the body is kept as it came. -/
  | validated (body : Value)

namespace VerificationOutcome

/-- A text as it is, any other value as compact JSON. -/
def render : Value → String
  | .text s => s
  | v => Json.write v

/-- A body whose `success` is false is a failure: its `details` say why, or else its
`error`. Every other body means that the challenge is met. -/
def ofBody (body : Value) : VerificationOutcome :=
  if (body.member? "success").bind Value.bool? = some false then
    match (body.member? "details").orElse fun _ => body.member? "error" with
    | some v => .failed (render v)
    | none => .failed "no details given"
  else .validated body

def isValidated : VerificationOutcome → Bool
  | .validated _ => true
  | .failed _ => false

end VerificationOutcome
end CertEnrollment.Authority
