import CertEnrollment.Data.Record

/-!
# Errors of the DNS side

Why a host could not be placed in a zone, or a record not be changed.
-/
namespace CertEnrollment.Dns
open Data

inductive Error where
  | notConfigured
  | zoneNotConfigured (host : String)
  /-- The labels between host and zone are not on the zone's list. -/
  | branchNotAllowed (branch zone : String)
  /-- A backend without options was asked for. -/
  | optionsMissing (backend zone : String)
  | credentialsMissing (what : String)
  /-- The hosted provider answered with an error status. -/
  | provider (status : Nat) (message : String)
  /-- The hosted provider gave no usable answer. -/
  | http (reason : String)
  | store (reason : String)
  /-- The stored records could not be read. -/
  | json (cause : ReadError)
  deriving DecidableEq, Repr

namespace Error

def message : Error → String
  | notConfigured => "no dns client is configured (e.g. coredns or namecom)"
  | zoneNotConfigured host => "main/parent domain of '" ++ host ++ "' is not configured"
  | branchNotAllowed branch zone =>
    "'" ++ branch ++ "' prefix is not allowed in '" ++ zone ++ "' configuration"
  | optionsMissing backend zone =>
    backend ++ " is selected for zone '" ++ zone ++ "' but not configured"
  | credentialsMissing what => what ++ " need to be configured for name.com dns client"
  | provider status message =>
    "dns provider error (" ++ toString status ++ "): " ++ message
  | http reason => "dns provider request failed: " ++ reason
  | store reason => "zone store error: " ++ reason
  | json cause => "record encoding error: " ++ cause.message

/-- The configuration is at fault, and nothing that a backend answered. -/
def isConfigError : Error → Bool
  | notConfigured | zoneNotConfigured _ | branchNotAllowed _ _ | optionsMissing _ _
  | credentialsMissing _ => true
  | _ => false

end Error
end CertEnrollment.Dns
