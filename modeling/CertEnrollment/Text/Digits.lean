/-!
# Digits

Numbers from digits in any base up to 36. Letters of both cases are digits.
-/
namespace CertEnrollment.Text

def digitIn? (base : Nat) (c : Char) : Option Nat :=
  let n :=
    if c.isDigit then c.toNat - '0'.toNat
    else if 'a' ≤ c.toLower ∧ c.toLower ≤ 'z' then c.toLower.toNat - 'a'.toNat + 10
    else base
  if n < base then some n else none

/-- The number of digits in a base; no digits at all make zero. -/
def numberIn? (base : Nat) (cs : List Char) : Option Nat :=
  cs.foldlM (fun n c => (digitIn? base c).map (n * base + ·)) 0

end CertEnrollment.Text
