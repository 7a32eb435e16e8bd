import CertEnrollment.Encoding.Der
import CertEnrollment.Text.Utf8

/-!
# Parts of certificates and requests

Names, keys and extensions as they occur in certificates as well as in requests for
them. A reader keeps what the names of domains are taken from and checks the form of the
rest.
-/
namespace CertEnrollment.X509
open Der Scanner

/-! ## Object identifiers -/

namespace Oid
def commonName : List UInt8 := [0x55, 0x04, 0x03]
def subjectAltName : List UInt8 := [0x55, 0x1D, 0x11]
def challengePassword : List UInt8 := [0x2A, 0x86, 0x48, 0x86, 0xF7, 0x0D, 0x01, 0x09, 0x07]
def extensionRequest : List UInt8 := [0x2A, 0x86, 0x48, 0x86, 0xF7, 0x0D, 0x01, 0x09, 0x0E]
end Oid

/-! ## Distinguished names -/

/-- One attribute of a distinguished name. -/
structure NameAttribute where
  oid : List UInt8
  /-- The tag number of the value. -/
  form : Nat
  value : List UInt8
  deriving DecidableEq, Repr

/-- The text of an attribute, when it is in one of the forms that stand for text of
their own and is well-formed. -/
def NameAttribute.text? (a : NameAttribute) : Option String :=
  if [Tag.numericText, Tag.printableText, Tag.utf8Text, Tag.asciiText].contains a.form then
    Utf8.decode? a.value
  else none

def nameAttribute : Reader NameAttribute := sequence do
  let oid ← identifier
  let e ← element
  return ⟨oid, e.header.number, e.content⟩

/-- Attributes that stand together; there is at least one. -/
def nameGroup : Reader (List NameAttribute) := within Tag.set do
  let attributes ← many nameAttribute
  if attributes.isEmpty then failure else return attributes

/-- The attributes of a distinguished name. What does not read as a group ends it. -/
def distinguishedName : Reader (List NameAttribute) := sequence do
  return (← many nameGroup).flatten

/-- The common names that can be read as text. -/
def commonNames (attributes : List NameAttribute) : List String :=
  (attributes.filter (·.oid == Oid.commonName)).filterMap NameAttribute.text?

/-! ## Algorithms and keys -/

/-- An algorithm with its parameters, if there are any. -/
def algorithm : Reader Unit := sequence do
  let _ ← identifier
  let _ ← ifAny element

def publicKey : Reader Unit := sequence do
  algorithm
  let _ ← bitString

/-! ## Extensions -/

structure Extension where
  oid : List UInt8
  content : List UInt8
  deriving DecidableEq, Repr

def extension : Reader Extension := sequence do
  let oid ← identifier
  let _ ← optional boolean
  return ⟨oid, ← octetString⟩

/-- A list of extensions; each one has to read. -/
def extensions : Reader (List Extension) := sequence (whole (many extension))

/-- An alternative name: the domain, if it is the name of one. -/
def alternativeName : Reader (Option String) := do
  let e ← element
  let text : Reader String := match Utf8.decode? e.content with
    | some s => pure s
    | none => failure
  let fits {α : Type} (read : Reader α) : Reader (Option String) :=
    if (read e.content).isSome then pure none else failure
  if e.header.kind ≠ 2 then failure
  else match e.header.number with
    | 0 => fits identifier
    | 1 | 6 => do
      let _ ← text
      return none
    | 2 => some <$> text
    | 4 => fits (whole distinguishedName)
    | 3 | 5 | 7 | 8 => return none
    | _ => failure

/-- The domains among the alternative names of an extension. If one name does not read,
there are none. -/
def Extension.domains (x : Extension) : List String :=
  if x.oid = Oid.subjectAltName then
    match sequence (whole (many alternativeName)) x.content with
    | some (names, _) => names.filterMap id
    | none => []
  else []

end CertEnrollment.X509
