import CertEnrollment.Authority.Download
import CertEnrollment.Cache.Prefetch
import CertEnrollment.Encoding.Pem
import CertEnrollment.X509.Certificate

/-!
# Bundles

The answer to a client is made from what the authority lets download: the text of the
certificate followed by that of the certificates above it, twice, and the bytes of the
certificate alone.
-/
namespace CertEnrollment.Enrollment

def certificateTag : String := "CERTIFICATE"

/-- The bytes of the certificate that a text begins with. -/
def leaf (certificate : String) : Except Error (List UInt8) :=
  match Pem.Block.first? certificate.toList with
  | none => .error (.certificate "not a PEM block")
  | some b =>
    if b.tag ≠ certificateTag then
      .error (.certificate ("unexpected PEM block '" ++ b.tag ++ "'"))
    else if X509.isCertificate b.bytes then .ok b.bytes
    else .error (.certificate "not a certificate")

def bundle (d : Authority.Download) : Except Error Cache.Issued :=
  (leaf d.certificate).map fun bytes =>
    ⟨Text.join "\n" [d.certificate, d.caBundle, d.caBundle], Base64.encode bytes⟩

end CertEnrollment.Enrollment
