import CertEnrollment.X509.Basic

/-!
# Certification requests

What a request asks for: the common names of its subject and the domains among the
alternative names in its extensions. The signature is not checked.
-/
namespace CertEnrollment.X509
open Der Scanner

structure Request where
  subject : List NameAttribute
  /-- The lists of extensions, one for each attribute that asks for some. -/
  extensionLists : List (List Extension)

/-- A character that a printable text may have. -/
def isPrintable (b : UInt8) : Bool :=
  let c := Char.ofNat b.toNat
  c.isAlphanum || " '()+,-./:=?".toList.contains c

/-- A password in one of the forms for it. -/
def password : Reader Unit := do
  let e ← element
  let isText := (Utf8.decode? e.content).isSome
  let number := e.header.number
  if number = Tag.utf8Text ∧ isText ∨ number = Tag.teletexText ∧ isText ∨
      number = Tag.printableText ∧ e.content.all isPrintable then return
  else failure

/-- An attribute of a request: the extensions, if it asks for some. Only the first value
counts. -/
def requestAttribute : Reader (Option (List Extension)) := sequence do
  let oid ← identifier
  let values ← header
  if values.number ≠ Tag.set then failure
  else if oid = Oid.extensionRequest then some <$> extensions
  else if oid = Oid.challengePassword then do
    password
    return none
  else return none

/-- The signed part of a request. Its attributes go on to its end. -/
def requestInfo : Reader Request := sequence do
  let _version ← natural 32
  let subject ← distinguishedName
  publicKey
  let attributes ← header
  if attributes.number ≠ 0 then failure
  else return ⟨subject, (← whole (many requestAttribute)).filterMap id⟩

/-- Reads a request; bytes after it do not matter. -/
def Request.ofDer? (der : List UInt8) : Option Request :=
  let request : Reader Request := sequence do
    let info ← requestInfo
    algorithm
    let _ ← bitString
    return info
  (request der).map (·.1)

/-- The names that the request is for, the common names first. -/
def Request.names (r : Request) : List String :=
  commonNames r.subject ++ (r.extensionLists.headD []).flatMap Extension.domains

end CertEnrollment.X509
