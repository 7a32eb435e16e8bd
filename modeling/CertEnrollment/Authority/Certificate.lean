import CertEnrollment.Authority.Status
import CertEnrollment.Data.Record

/-!
# Certificate records

The record that the authority answers with, read from a tree and written as a value.
Every optional field may be null or absent. The challenges of the domains are an object
keyed by domain, but the authority writes an empty one as an array.
-/
namespace CertEnrollment.Authority
open Data

/-- The challenge values for one domain. -/
structure DomainValidation where
  /-- The host that the CNAME record has to be created on. -/
  cnameHost : Option String
  /-- What the CNAME record has to point to. -/
  cnameTarget : Option String
  /-- Where a validation file would be looked for. -/
  fileUrl : Option String
  deriving DecidableEq, Repr

/-- Host and target of the CNAME challenge, when both are given. -/
def DomainValidation.cname? (v : DomainValidation) : Option (String × String) :=
  match v.cnameHost, v.cnameTarget with
  | some host, some target => some (host, target)
  | _, _ => none

/-- The validation section of a record. -/
structure Validation where
  otherMethods : SortedMap DomainValidation

structure Certificate where
  id : String
  status : Status
  commonName : Option String
  additionalDomains : Option String
  created : Option String
  expires : Option String
  validation : Option Validation

/-- The challenges by domain, in the order of the domains; empty without a section. -/
def Certificate.challenges (c : Certificate) : List (String × DomainValidation) :=
  match c.validation with
  | some v => v.otherMethods.entries
  | none => []

/-! ## Reading -/

def optionalText : Tree → Reading (Option String) := Tree.asOption Tree.asText

def DomainValidation.read (t : Tree) : Reading DomainValidation := do
  let row ← Row.read false [field "cname_validation_p1" optionalText,
    field "cname_validation_p2" optionalText, field "file_validation_url_http" optionalText] t
  return {
    cnameHost := ← row.optional "cname_validation_p1" optionalText none
    cnameTarget := ← row.optional "cname_validation_p2" optionalText none
    fileUrl := ← row.optional "file_validation_url_http" optionalText none }

/-- How many nested arrays and objects the challenges may have, two levels inside a
document of at most 127. -/
def challengeNesting : Nat := 125

/-- The challenges by domain: an object, or any array for an empty one, or null. All
of it has to be readable, also what is not looked at. -/
def readChallenges (t : Tree) : Reading (SortedMap DomainValidation) :=
  match t, t.value? challengeNesting with
  | .null, _ => .ok .empty
  | _, none => .error .malformed
  | .array _, some _ => .ok .empty
  | t, some _ => t.asMap DomainValidation.read

def Validation.read (t : Tree) : Reading Validation := do
  let row ← Row.read false [field "other_methods" readChallenges] t
  return ⟨← row.optional "other_methods" readChallenges .empty⟩

def readStatus (t : Tree) : Reading Status := (t.asText).map Status.ofWord

def Certificate.read (t : Tree) : Reading Certificate := do
  let validation := Tree.asOption Validation.read
  let row ← Row.read false [field "id" Tree.asText, field "status" readStatus,
    field "common_name" optionalText, field "additional_domains" optionalText,
    field "created" optionalText, field "expires" optionalText,
    field "validation" validation] t
  return {
    id := ← row.required "id" Tree.asText
    status := ← row.required "status" readStatus
    commonName := ← row.optional "common_name" optionalText none
    additionalDomains := ← row.optional "additional_domains" optionalText none
    created := ← row.optional "created" optionalText none
    expires := ← row.optional "expires" optionalText none
    validation := ← row.optional "validation" validation none }

/-! ## Writing -/

def DomainValidation.value (v : DomainValidation) : Value :=
  .ofMembers [("cname_validation_p1", .ofOption .text v.cnameHost),
    ("cname_validation_p2", .ofOption .text v.cnameTarget),
    ("file_validation_url_http", .ofOption .text v.fileUrl)]

def Validation.value (v : Validation) : Value :=
  .ofMembers [("other_methods", .ofMap DomainValidation.value v.otherMethods)]

/-- All fields are written, the absent ones as null. -/
def Certificate.value (c : Certificate) : Value :=
  .ofMembers [("id", .text c.id), ("status", .text c.status.word),
    ("common_name", .ofOption .text c.commonName),
    ("additional_domains", .ofOption .text c.additionalDomains),
    ("created", .ofOption .text c.created), ("expires", .ofOption .text c.expires),
    ("validation", .ofOption Validation.value c.validation)]

end CertEnrollment.Authority
