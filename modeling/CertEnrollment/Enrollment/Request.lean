import CertEnrollment.Cache.DomainSet
import CertEnrollment.Data.Distinct
import CertEnrollment.Encoding.Pem
import CertEnrollment.Enrollment.Error
import CertEnrollment.X509.Request

/-!
# Signing requests

A request may come as bytes, as base64 of them, or as a PEM block. It is handed on as a
PEM block of its bytes, for the domains that it names.
-/
namespace CertEnrollment.Enrollment
open Text

structure SigningRequest where
  /-- The request as PEM text. -/
  pem : String
  /-- Its domains in canonical form, each once, in the order of the request. -/
  names : List String
  deriving DecidableEq, Repr

namespace SigningRequest

/-- The tag under which requests are handed on. -/
def tag : String := "CERTIFICATE REQUEST"

/-- The tags that a block with a request may have. -/
def tags : List String := [tag, "NEW CERTIFICATE REQUEST"]

/-- The bytes of a request in text form. -/
def decodeText (text : List Char) : Except String (List UInt8) :=
  if (cutAtWord "-----BEGIN".toList text).isSome then
    match Pem.Block.first? text with
    | none => .error "not a PEM block"
    | some b =>
      if tags.contains b.tag then .ok b.bytes
      else .error ("unexpected PEM block '" ++ b.tag ++ "'")
  else match Base64.decode? (text.filter fun c => !isAsciiBlank c) with
    | some der => .ok der
    | none => .error "invalid base64: not in canonical form"

/-- The bytes of a request in any of the three forms. The first byte of a request in
binary form is that of a sequence. -/
def decode (input : List UInt8) : Except String (List UInt8) :=
  if input.head? = some 0x30 then .ok input
  else match Utf8.decode? input with
    | none => .error "neither DER nor text"
    | some text => decodeText text.toList

/-- Names in canonical form, without empty ones, each once. -/
def canonicalNames (names : List String) : List String :=
  Data.distinct ((names.map Cache.DomainSet.canonical).filter (· ≠ ""))

/-- The request in these bytes. -/
def ofDer (der : List UInt8) : Except String SigningRequest :=
  match X509.Request.ofDer? der with
  | none => .error "malformed certification request: not in the expected form"
  | some r => match canonicalNames r.names with
    | [] => .error "no domain names in request"
    | names => .ok ⟨(Pem.Block.mk tag der).text, names⟩

def parse (input : List UInt8) : Except Error SigningRequest :=
  match decode input with
  | .error reason => .error (.request reason)
  | .ok der => (ofDer der).mapError .request

end SigningRequest
end CertEnrollment.Enrollment
