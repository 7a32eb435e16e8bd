import CertEnrollment.Data.Record

/-!
# Certificate downloads

The issued certificate and the bundle of the certificates above it, both as PEM text.
-/
namespace CertEnrollment.Authority
open Data

structure Download where
  certificate : String
  caBundle : String
  deriving DecidableEq, Repr

def Download.read (t : Tree) : Reading Download := do
  let row ← Row.read false [field "certificate.crt" Tree.asText,
    field "ca_bundle.crt" Tree.asText] t
  return {
    certificate := ← row.required "certificate.crt" Tree.asText
    caBundle := ← row.required "ca_bundle.crt" Tree.asText }

/-- The certificate is written before the bundle. -/
def Download.value (d : Download) : Value :=
  .object [("certificate.crt", .text d.certificate), ("ca_bundle.crt", .text d.caBundle)]

end CertEnrollment.Authority
