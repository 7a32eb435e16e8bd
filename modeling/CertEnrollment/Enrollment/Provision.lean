import CertEnrollment.Enrollment.Flow

/-!
# Validation records

An enrollment creates a record for every challenge of its certificate and deletes what
it has created. Every domain gets its turn whatever happened to those before it, and
only the first failure is reported.
-/
namespace CertEnrollment.Enrollment
open Authority

/-- A record that was created for a domain. -/
structure Provisioned where
  domain : String
  host : String
  deriving DecidableEq, Repr

/-- Ends with the first failure, if there is one. -/
def reportFirst (failures : List String) : Except String Unit :=
  match failures with
  | [] => .ok ()
  | first :: _ => .error first

/-- Tries to create the record of each domain: the records created and the failures. -/
def createRecords : List (String × DomainValidation) → Flow (List Provisioned × List String)
  | [] => return ([], [])
  | (domain, v) :: rest =>
    let what := "error while registering dns records "
    match v.cname? with
    | none => do
      let (records, failures) ← createRecords rest
      return (records, (what ++ "for " ++ domain ++ ": no CNAME challenge") :: failures)
    | some (host, target) => do
      let answer : Except Dns.Error Unit ← (Call.createRecord host target).make
      let (records, failures) ← createRecords rest
      match answer with
      | .ok () => return (⟨domain, host⟩ :: records, failures)
      | .error e =>
        let message := what ++ "'" ++ host ++ " -> " ++ target ++ "' for " ++ domain ++ ": " ++
          e.message
        return (records, message :: failures)

/-- Tries to delete each record and gives the failures. -/
def deleteRecords : List Provisioned → Flow (List String)
  | [] => return []
  | r :: rest => do
    let answer : Except Dns.Error Unit ← (Call.deleteRecord r.host).make
    let failures ← deleteRecords rest
    match answer with
    | .ok () => return failures
    | .error e =>
      return ("error while dns records cleanup for " ++ r.domain ++ ": " ++ e.message) :: failures

/-- Deletes the records. -/
def cleanup (records : List Provisioned) : Action Unit :=
  ExceptT.mk do return reportFirst (← deleteRecords records)

/-- Creates the records of a certificate. If one cannot be created, the others are
deleted again, and how that goes does not matter. -/
def provision (c : Certificate) : Action (List Provisioned) :=
  ExceptT.mk do
    let (records, failures) ← createRecords c.challenges
    match reportFirst failures with
    | .ok () => return .ok records
    | .error first =>
      let _ ← deleteRecords records
      return .error first

end CertEnrollment.Enrollment
