import CertEnrollment.Authority.Error
import CertEnrollment.Dns.Error

/-!
# Errors of an enrollment

Everything that can go wrong while a handler is configured or enrolls.
-/
namespace CertEnrollment.Enrollment

inductive Error where
  | config (reason : String)
  /-- The signing request could not be decoded or names no domain. -/
  | request (reason : String)
  /-- The issued certificate could not be decoded. -/
  | certificate (reason : String)
  | dns (cause : Dns.Error)
  | authority (cause : Authority.Error)
  /-- An enrollment ended with the message that its client gets to see. -/
  | ended (message : String)
  | cache (reason : String)
  | io (reason : String)
  deriving DecidableEq, Repr

namespace Error

def message : Error → String
  | config reason => "config error: " ++ reason
  | request reason => "invalid csr: " ++ reason
  | certificate reason => "invalid certificate: " ++ reason
  | dns cause => cause.message
  | authority cause => cause.message
  | ended message => message
  | cache reason => "cache store error: " ++ reason
  | io reason => "io error: " ++ reason

/-- The configuration or the request is at fault, which shows before the authority is
asked. -/
def isConfigError : Error → Bool
  | config _ | request _ => true
  | dns cause => cause.isConfigError
  | _ => false

end Error
end CertEnrollment.Enrollment
