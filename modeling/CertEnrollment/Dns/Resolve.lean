import CertEnrollment.Dns.Error
import CertEnrollment.Dns.Zone

/-!
# Placing hosts in zones

A host belongs to the zone with the longest name among those it lies below; of zones
with the same name the last one counts. The choice is made before the branch is
looked at, so a branch that is refused never falls back to a shorter zone.
-/
namespace CertEnrollment.Dns

/-- A host as first label, branch and zone. -/
structure HostParts where
  subdomain : String
  branch : String
  zone : Zone
  deriving DecidableEq, Repr

/-- The parts of a normalized host in one zone. -/
def Zone.parts? (host : String) (z : Zone) : Option HostParts :=
  (z.split? host).map fun (subdomain, branch) => ⟨subdomain, branch, z⟩

/-- The one with the longer zone name, the second one if they are equally long. -/
def HostParts.longer : Option HostParts → HostParts → Option HostParts
  | none, p => some p
  | some best, p => if best.zone.name.length ≤ p.zone.name.length then some p else some best

/-- The parts in the zone that the normalized host belongs to. -/
def placement? (zones : List Zone) (host : String) : Option HostParts :=
  (zones.filterMap (Zone.parts? host)).foldl HostParts.longer none

/-- Places a host. An error names the host as it was given. -/
def resolve (zones : List Zone) (host : String) : Except Error HostParts :=
  match placement? zones (normalize host) with
  | none => .error (.zoneNotConfigured host)
  | some p =>
    if p.zone.permits p.branch then .ok p
    else .error (.branchNotAllowed p.branch p.zone.name)

end CertEnrollment.Dns
