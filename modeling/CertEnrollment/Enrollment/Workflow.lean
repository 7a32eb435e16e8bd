import CertEnrollment.Enrollment.Bundle
import CertEnrollment.Enrollment.Policy
import CertEnrollment.Enrollment.Provision
import CertEnrollment.Enrollment.Request

/-!
# The enrollment of a request

A request is decoded, its hosts are placed, the locks of its domains are taken, and the
cache is asked. Only then a certificate is created, its challenges are provisioned and
checked, its status is polled, the records are deleted, and the certificate is
downloaded and cached. The first stage that fails ends the enrollment. Trouble with the
cache is never a failure.
-/
namespace CertEnrollment.Enrollment
open Authority Cache

/-! ## Waiting for the authority -/

/-- The message for challenges that were not met. -/
def unmet (details : String) : String :=
  "could not verify the challenge for one of the domains: " ++ details

/-- Has the challenges checked up to `trials` times. The message of a failure is that of
the last answer. -/
def validate (id : String) : Nat → String → Action Unit
  | 0, details => throw (unmet details)
  | trials + 1, _ => do
    let answer : Except Authority.Error VerificationOutcome ←
      ExceptT.lift (Call.check id).make
    match answer with
    | .ok (.validated _) => return
    | .ok (.failed details) => validate id trials details
    | .error e => validate id 0 e.message

/-- Looks at the status until the certificate is issued, it never will be, or `timeout`
has passed since `start`. After every look but the last it sleeps for the delay. The
last argument bounds the number of looks. -/
def pollFrom (p : Policy) (id : String) (start : Nat) : Nat → Action Unit
  | 0 => throw ("timeout (" ++ toString (p.pollTimeout / 1000) ++
      "s) while waiting for certificate to be issued")
  | looks + 1 => do
    let time : Nat ← ExceptT.lift (Interaction.call Ask.now)
    if p.pollTimeout ≤ time - start then pollFrom p id start 0
    else
      let c ← Call.orFail (Call.get id).make "error while polling certificate status: "
        Authority.Error.message
      if c.status.isIssued then return
      else if c.status.isTerminalFailure then
        throw ("certificate " ++ id ++ " was " ++ c.status.word ++
          " while waiting for it to be issued")
      else
        ExceptT.lift (Interaction.call (Ask.sleep p.pollDelay))
        pollFrom p id start looks

/-- Waits until a certificate is issued. -/
def poll (s : Setup) (id : String) : Action Unit := do
  let start : Nat ← ExceptT.lift (Interaction.call Ask.now)
  pollFrom s.policy id start s.looks

/-! ## Issuing -/

/-- Creates the records and has the challenges checked, if the status asks for that. -/
def prepare (s : Setup) (c : Certificate) : Action (List Provisioned) := do
  if c.status.needsValidation then
    let records ← provision c
    validate c.id s.policy.verifyTrials "no details given"
    return records
  else return []

/-- Downloads a certificate and makes its bundle. -/
def deliver (id : String) : Action Issued := do
  let d ← Call.orFail (Call.download id).make "error while downloading certificate: "
    Authority.Error.message
  ExceptT.mk (pure ((bundle d).mapError Error.message))

/-- Has a certificate issued for a request. The records are deleted however polling
ended, but they are kept when the challenges were not met. -/
def run (s : Setup) (r : SigningRequest) : Action Issued := do
  let c ← Call.orFail (Call.create r.names r.pem s.policy.validityDays).make
    "error while creating certificate: " Authority.Error.message
  let records ← prepare s c
  let polled ← ExceptT.lift (poll s c.id).run
  let cleaned ← ExceptT.lift (cleanup records).run
  ExceptT.mk (pure polled)
  ExceptT.mk (pure cleaned)
  deliver c.id

/-- Writes a certificate to the cache, if the cache lets it. -/
def remember (s : Setup) (domains : DomainSet) (issued : Issued) : Flow Unit := do
  let _ ← onCache (s.cache.insert domains issued)

/-- The cached certificate for a set, if the cache has one and gives it. -/
def cached (s : Setup) (domains : DomainSet) : Flow (Option Issued) := do
  match ← onCache (s.cache.get domains) with
  | .ok found => return found
  | .error _ => return none

/-- What an enrollment does while it holds its locks. -/
def issueLocked (s : Setup) (r : SigningRequest) (domains : DomainSet) : Action Issued := do
  match ← ExceptT.lift (cached s domains) with
  | some issued => return issued
  | none =>
    let issued ← run s r
    ExceptT.lift (remember s domains issued)
    return issued

def configurationError (message : String) : String := "configuration error: " ++ message

/-- Has all hosts placed; the first one that cannot be is reported. -/
def placeAll : List String → Action Unit
  | [] => return
  | host :: rest => do
    Call.orFail (Call.place host).make "" fun e => configurationError e.message
    placeAll rest

/-- Issues a certificate for a request in one of its forms. -/
def issue (s : Setup) (csr : List UInt8) : Action Issued := do
  let r ← ExceptT.mk (pure ((SigningRequest.parse csr).mapError fun e =>
    configurationError e.message))
  placeAll r.names
  let domains := DomainSet.ofNames r.names
  ExceptT.lift (Interaction.call (Ask.lock domains))
  let issued ← ExceptT.lift (issueLocked s r domains).run
  ExceptT.lift (Interaction.call Ask.unlock)
  ExceptT.mk (pure issued)

/-- Issues a certificate and also caches it for these domains. -/
def prefetch (s : Setup) (domains : List String) (csr : List UInt8) : Action Issued := do
  let issued ← issue s csr
  ExceptT.lift (remember s (.ofNames domains) issued)
  return issued

end CertEnrollment.Enrollment
