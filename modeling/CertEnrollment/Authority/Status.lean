/-!
# Certificate status

The states of a certificate at the certificate authority and what each one asks of
an enrollment.
-/
namespace CertEnrollment.Authority

inductive Status where
  | draft
  | pendingValidation
  | issued
  | cancelled
  | expiringSoon
  | expired
  /-- A status without a meaning here. -/
  | unknown
  deriving DecidableEq, Repr, Inhabited

namespace Status

/-- The word for a status in the records of the authority. -/
def word : Status → String
  | draft => "draft"
  | pendingValidation => "pending_validation"
  | issued => "issued"
  | cancelled => "cancelled"
  | expiringSoon => "expiring_soon"
  | expired => "expired"
  | unknown => "unknown"

/-- The status of a word, to the letter; every other word is an unknown status. -/
def ofWord (s : String) : Status :=
  if s = "draft" then draft
  else if s = "pending_validation" then pendingValidation
  else if s = "issued" then issued
  else if s = "cancelled" then cancelled
  else if s = "expiring_soon" then expiringSoon
  else if s = "expired" then expired
  else unknown

@[simp] theorem ofWord_word (s : Status) : ofWord s.word = s := by cases s <;> rfl

/-- The domains of a draft and of an expired certificate have to be validated. -/
def needsValidation (s : Status) : Bool := s = draft || s = expired

/-- The certificate can be downloaded. -/
def isIssued (s : Status) : Bool := s = issued || s = expiringSoon

/-- The certificate will never be issued. -/
def isTerminalFailure (s : Status) : Bool := s = cancelled

end Status
end CertEnrollment.Authority
