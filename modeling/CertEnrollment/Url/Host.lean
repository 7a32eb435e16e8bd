import CertEnrollment.Url.Address
import CertEnrollment.Url.Percent

/-!
# Hosts of URLs

A host of a special scheme is a domain or an address: it is percent-decoded and
lowercased, and a domain may hold no forbidden character. Labels outside ASCII are
taken as they are. A host of any other scheme is opaque: it keeps its case and is only
encoded.
-/
namespace CertEnrollment.Url

/-- Characters that no host may hold. -/
def isForbiddenInHost (c : Char) : Bool :=
  ['\x00', '\t', '\n', '\r', ' ', '#', '/', ':', '<', '>', '?', '@', '[', '\\', ']', '^',
    '|'].contains c

def isForbiddenInDomain (c : Char) : Bool := isForbiddenInHost c || isControl c || c == '%'

/-- A host in brackets has to be an address of version 6. -/
def bracketed? (cs : List Char) : Option (List Char) := do
  if cs.getLast? ≠ some ']' then failure
  let pieces ← ipv6? cs.dropLast
  return '[' :: (writeIpv6 pieces ++ [']'])

/-- The written form of a host of a special scheme. -/
def specialHost? (cs : List Char) : Option (List Char) :=
  match cs with
  | '[' :: rest => bracketed? rest
  | cs => do
    let decoded ← Utf8.decode? (percentDecode (String.ofList cs))
    let name := decoded.toList.map Char.toLower
    if name.isEmpty ∨ name.any isForbiddenInDomain then failure
    if endsInNumber name then (ipv4? name).map writeIpv4 else some name

/-- The written form of a host of any other scheme; it may be empty. -/
def opaqueHost? (cs : List Char) : Option (List Char) :=
  match cs with
  | '[' :: rest => bracketed? rest
  | cs => if cs.any isForbiddenInHost then none else some (percentEncode isControl cs)

end CertEnrollment.Url
