import CertEnrollment.Data.Distinct
import CertEnrollment.Text.Blank
import CertEnrollment.Text.Pieces

/-!
# Zones

A zone is a domain below which hosts may be validated, with the branches that hosts
may lie in: the labels between the first label of a host and the zone. Names are kept
in normal form, without blanks around them, dots at the end and ASCII capitals.
-/
namespace CertEnrollment.Dns
open Text

/-- The kinds of backend that a zone can be served by. -/
inductive BackendKind where
  /-- Records in a key-value store that the name server reads. -/
  | coredns
  /-- A hosted provider. -/
  | namecom
  deriving DecidableEq, Repr

def BackendKind.word : BackendKind → String
  | coredns => "coredns"
  | namecom => "namecom"

def BackendKind.ofWord? (s : String) : Option BackendKind :=
  if s = "coredns" then some coredns
  else if s = "namecom" then some namecom
  else none

/-- Drops blanks at both ends, then dots at the end, then ASCII capitals. -/
def normalizeChars (cs : List Char) : List Char :=
  (dropEndWhile (· == '.') (trimChars cs)).map Char.toLower

/-- The normal form of a name. -/
def normalize (name : String) : String := String.ofList (normalizeChars name.toList)

structure Zone where
  name : String
  /-- The branches on the list, each once. -/
  branches : List String
  backend : Option BackendKind
  deriving DecidableEq, Repr

namespace Zone

/-- The zone of a name, with these branches allowed; both are normalized. -/
def make (name : String) (branches : List String) (backend : Option BackendKind) : Zone :=
  ⟨normalize name, Data.distinct (branches.map normalize), backend⟩

/-- Zones are told apart by their names alone. -/
def same (a b : Zone) : Bool := a.name == b.name

/-- A branch is allowed when it is empty, on the list, or the end of a branch on the
list, up to ASCII case and cut at a dot. -/
def permits (z : Zone) (branch : String) : Bool :=
  branch.isEmpty ||
    let wanted := asciiLower branch
    z.branches.any fun b => b == wanted || ('.' :: wanted.toList).isSuffixOf b.toList

/-- The first label and the branch of a host of this zone; no label may be empty. -/
def split? (z : Zone) (host : String) : Option (String × String) :=
  match beforeEnding? ('.' :: z.name.toList) host.toList with
  | none => none
  | some rest =>
    if (splitAt '.' rest).any (·.isEmpty) then none
    else
      let (first, branch) := cutAt '.' rest
      some (String.ofList first, String.ofList (branch.getD []))

end Zone
end CertEnrollment.Dns
