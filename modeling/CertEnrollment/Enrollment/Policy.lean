/-!
# Bounds of an enrollment

How often and how long an enrollment tries. Times are in milliseconds.
-/
namespace CertEnrollment.Enrollment

structure Policy where
  /-- How often the authority is asked to check the challenges. -/
  verifyTrials : Nat
  /-- The time between two looks at the status. -/
  pollDelay : Nat
  /-- How long the status is looked at. -/
  pollTimeout : Nat
  validityDays : Nat
  deriving DecidableEq, Repr

def Policy.default : Policy := ⟨6, 200, 180000, 90⟩

/-- How many looks at the status fit into the timeout when every sleep takes its time,
and one more. -/
def Policy.looks (p : Policy) : Nat := p.pollTimeout / max p.pollDelay 1 + 2

end CertEnrollment.Enrollment
