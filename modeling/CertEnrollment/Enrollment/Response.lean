import CertEnrollment.Enrollment.Workflow

/-!
# Responses to clients

What a client gets to see. Failures are part of a response.
-/
namespace CertEnrollment.Enrollment
open Cache

structure Response where
  error : Option String
  bundle : Option String
  raw : Option String
  /-- What a pending enrollment could be asked for with. -/
  pollIdentifier : Option String
  deriving DecidableEq, Repr

namespace Response

def failed (message : String) : Response := ⟨some message, none, none, none⟩

def issued (c : Issued) : Response := ⟨none, some c.bundle, some c.raw, none⟩

def isSuccess (r : Response) : Bool := r.error.isNone

/-- The response to what came of an enrollment. -/
def ofResult : Except String Issued → Response
  | .ok c => issued c
  | .error message => failed message

end Response

/-- The answer to what is not supported. -/
def notImplemented : String := "Method not implemented."

/-- Enrolls a request. -/
def enroll (s : Setup) (csr : List UInt8) : Flow Response :=
  Response.ofResult <$> (issue s csr).run

/-- The response to asking for a pending enrollment, of which there are none. -/
def pollResponse (identifier : Option String) : Response :=
  { Response.failed notImplemented with pollIdentifier := identifier }

/-- The response to a revocation or a message from the authority. -/
def unsupported : Response := .failed notImplemented

end CertEnrollment.Enrollment
