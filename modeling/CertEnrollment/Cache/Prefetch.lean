import CertEnrollment.Cache.DomainSet
import CertEnrollment.Cache.Store
import CertEnrollment.Enrollment.Error
import CertEnrollment.Json.Reader
import CertEnrollment.Json.Writer

/-!
# The cache of issued certificates

Issued certificates by set of domains. All caches on one store see each other's
entries; each has a lifetime of its own for what it writes.
-/
namespace CertEnrollment.Cache
open Data

/-- An issued certificate as its client gets it. -/
structure Issued where
  /-- The certificate and those above it, as PEM text. -/
  bundle : String
  /-- The certificate alone, as base64 of its bytes. -/
  raw : String
  deriving DecidableEq, Repr

namespace Issued

def read (t : Tree) : Reading Issued := do
  let row ← Row.read false [field "bundle" Tree.asText, field "raw" Tree.asText] t
  return ⟨← row.required "bundle" Tree.asText, ← row.required "raw" Tree.asText⟩

def value (c : Issued) : Value := .ofMembers [("bundle", .text c.bundle), ("raw", .text c.raw)]

/-- The text of a cache entry. -/
def text (c : Issued) : String := Json.write c.value

end Issued

/-- Interactions with a cache store that may fail. -/
abbrev Action := ExceptT Enrollment.Error (Interaction Ask Ask.Answer)

/-- The key of the entry for a set. -/
def entryKey (domains : DomainSet) : String := "zerossl:prefetch:" ++ domains.text

/-- A cache that keeps its entries for `ttl` milliseconds. -/
structure Prefetch where
  ttl : Nat
  deriving DecidableEq, Repr

/-- The certificate that an entry holds. -/
def decodeEntry (domains : DomainSet) (text : String) : Except Enrollment.Error Issued :=
  (Json.readText Issued.read text).mapError fun e =>
    .cache ("malformed entry for " ++ domains.text ++ ": " ++ e.message)

/-- The certificate for a set, if there is an entry. -/
def Prefetch.get (_ : Prefetch) (domains : DomainSet) : Action (Option Issued) :=
  ExceptT.mk (.ask (.read (entryKey domains)) fun r =>
    .done (match r with
      | .error reason => .error (.cache reason)
      | .ok none => .ok none
      | .ok (some text) => (decodeEntry domains text).map some))

/-- Writes the entry for a set. -/
def Prefetch.insert (c : Prefetch) (domains : DomainSet) (issued : Issued) : Action Unit :=
  ExceptT.mk (.ask (.write (entryKey domains) issued.text c.ttl) fun r =>
    .done (r.mapError .cache))

end CertEnrollment.Cache
