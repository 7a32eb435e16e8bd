import CertEnrollment.Proofs.Enrollment.Course
import CertEnrollment.Proofs.Enrollment.Requests

/-!
# Replies of the services

What the services around an enrollment answered, kind by kind, says of every stage whether it
has failed and with which message. Each part of an enrollment leaves replies of a few kinds only,
and it fails just when its own stage has failed by them.
-/
namespace CertEnrollment.Enrollment
open Authority Cache Interaction

/-! ## Answers by kind -/

/-- What was answered in the course of an enrollment, kind by kind and each in order. -/
structure Replies where
  placings : List (String × Except Dns.Error Unit) := []
  certificates : List (Except Authority.Error Certificate) := []
  creations : List ((String × String) × Except Dns.Error Unit) := []
  checks : List (Except Authority.Error VerificationOutcome) := []
  /-- Only polling reads the clock. -/
  clock : List Nat := []
  looks : List (Except Authority.Error Certificate) := []
  deletions : List (String × Except Dns.Error Unit) := []
  downloads : List (Except Authority.Error Download) := []

instance : Append Replies where
  append a b := {
    placings := a.placings ++ b.placings
    certificates := a.certificates ++ b.certificates
    creations := a.creations ++ b.creations
    checks := a.checks ++ b.checks
    clock := a.clock ++ b.clock
    looks := a.looks ++ b.looks
    deletions := a.deletions ++ b.deletions
    downloads := a.downloads ++ b.downloads }

theorem Replies.append_def (a b : Replies) : a ++ b =
    ⟨a.placings ++ b.placings, a.certificates ++ b.certificates, a.creations ++ b.creations,
      a.checks ++ b.checks, a.clock ++ b.clock, a.looks ++ b.looks, a.deletions ++ b.deletions,
      a.downloads ++ b.downloads⟩ :=
  rfl

def Event.replies : Event Ask Ask.Answer → Replies
  | ⟨.call (.place host), answer⟩ => { placings := [(host, answer)] }
  | ⟨.call (.create _ _ _), answer⟩ => { certificates := [answer] }
  | ⟨.call (.createRecord host target), answer⟩ => { creations := [((host, target), answer)] }
  | ⟨.call (.check _), answer⟩ => { checks := [answer] }
  | ⟨.now, time⟩ => { clock := [time] }
  | ⟨.call (.get _), answer⟩ => { looks := [answer] }
  | ⟨.call (.deleteRecord host), answer⟩ => { deletions := [(host, answer)] }
  | ⟨.call (.download _), answer⟩ => { downloads := [answer] }
  | _ => {}

def replies : Transcript → Replies
  | [] => {}
  | e :: t => Event.replies e ++ replies t

variable {t t₁ t₂ : Transcript}

@[simp] theorem replies_nil : replies [] = {} := rfl

theorem replies_cons {e : Event Ask Ask.Answer} :
    replies (e :: t) = Event.replies e ++ replies t :=
  rfl

@[simp] theorem replies_append : replies (t₁ ++ t₂) = replies t₁ ++ replies t₂ := by
  induction t₁ with
  | nil => rfl
  | cons e t₁ ih => simp [replies_cons, ih, Replies.append_def]

theorem mem_placings {host : String} {answer : Except Dns.Error Unit} :
    (host, answer) ∈ (replies t).placings ↔ ⟨.call (.place host), answer⟩ ∈ t := by
  induction t with
  | nil => simp
  | cons e t ih =>
    rw [replies_cons, Replies.append_def, List.mem_append, List.mem_cons, ih]
    refine or_congr_left ?_
    obtain ⟨request, reply⟩ := e
    cases request with
    | call c => cases c <;> simp [Event.replies]
    | _ => simp [Event.replies]

/-! ## Stages that failed -/

inductive Stage where
  | decoding
  | placing
  | creating
  | provisioning
  | validating
  | polling
  | cleaning
  | downloading
  | encoding
  deriving DecidableEq, Repr

/-- The stages in which a certificate is worked on. -/
def Stage.working : List Stage :=
  [creating, provisioning, validating, polling, cleaning, downloading, encoding]

/-- The stages from the first to the last one. -/
def Stage.inOrder : List Stage := decoding :: placing :: working

def error? {ε α : Type} : Except ε α → Option ε
  | .ok _ => none
  | .error e => some e

@[simp] theorem error?_ok {ε α : Type} {a : α} : error? (.ok a : Except ε α) = none := rfl

@[simp] theorem error?_error {ε α : Type} {e : ε} : error? (.error e : Except ε α) = some e := rfl

theorem error?_eq_some {ε α : Type} {x : Except ε α} {e : ε} :
    error? x = some e ↔ x = .error e := by
  cases x <;> simp

/-- The challenges of which the records have to stand. -/
def required (c : Certificate) : List (String × DomainValidation) :=
  if c.status.needsValidation then c.challenges else []

/-- The message for the first domain without a record. There is one answer for each of the
domains that have a host and a target. -/
def provisioningFailure? : List (String × DomainValidation) →
    List ((String × String) × Except Dns.Error Unit) → Option String
  | [], _ => none
  | (domain, v) :: rest, answers =>
    match v.cname?, answers with
    | none, _ =>
      some ("error while registering dns records " ++ "for " ++ domain ++ ": no CNAME challenge")
    | some _, [] => none
    | some _, (_, .ok ()) :: answers => provisioningFailure? rest answers
    | some (host, target), (_, .error e) :: _ =>
      some ("error while registering dns records " ++ "'" ++ host ++ " -> " ++ target ++ "' for " ++
        domain ++ ": " ++ e.message)

/-- Why the challenges are not met. -/
def details : Except Authority.Error VerificationOutcome → String
  | .ok (.failed details) => details
  | .ok (.validated _) => ""
  | .error e => e.message

def isMet : Except Authority.Error VerificationOutcome → Bool
  | .ok outcome => outcome.isValidated
  | .error _ => false

/-- The message of the last answer, unless one of them was that the challenges are met. -/
def checksFailure? (answers : List (Except Authority.Error VerificationOutcome)) : Option String :=
  if answers.any isMet then none
  else some (unmet ((answers.getLast?.map details).getD "no details given"))

/-- What the last look at the status says. A certificate that may still be issued was waited
for too long. -/
def pollingFailure? (p : Policy) (id : String) (looks : List (Except Authority.Error Certificate)) :
    Option String :=
  match looks.getLast? with
  | some (.error e) => some ("error while polling certificate status: " ++ e.message)
  | some (.ok c) =>
    if c.status.isIssued then none
    else if c.status.isTerminalFailure then
      some ("certificate " ++ id ++ " was " ++ c.status.word ++
        " while waiting for it to be issued")
    else some (timeout p)
  | none => some (timeout p)
where
  timeout (p : Policy) : String :=
    "timeout (" ++ toString (p.pollTimeout / 1000) ++
      "s) while waiting for certificate to be issued"

/-- The message for the first domain of which the record could not be deleted. -/
def cleanupFailure? (domains : List String) (answers : List (String × Except Dns.Error Unit)) :
    Option String :=
  (domains.zip answers).findSome? fun (domain, _, answer) =>
    (error? answer).map fun e =>
      "error while dns records cleanup for " ++ domain ++ ": " ++ e.message

namespace Replies
variable (a : Replies) (s : Setup) (csr : List UInt8)

/-- The certificate that was created. -/
def created? : Option Certificate := a.certificates.findSome? Except.toOption

/-- The message of a stage that failed. A stage that was not reached has not failed. -/
def failure? : Stage → Option String
  | .decoding =>
    (error? (SigningRequest.parse csr)).map fun e => configurationError e.message
  | .placing =>
    a.placings.findSome? fun p => (error? p.2).map fun e => configurationError e.message
  | .creating =>
    a.certificates.findSome? fun answer => (error? answer).map fun e =>
      "error while creating certificate: " ++ e.message
  | .provisioning => a.created?.bind fun c => provisioningFailure? (required c) a.creations
  | .validating => a.created?.bind fun c =>
    if c.status.needsValidation ∧ provisioningFailure? (required c) a.creations = none then
      checksFailure? a.checks
    else none
  | .polling =>
    if a.clock = [] then none
    else a.created?.bind fun c => pollingFailure? s.policy c.id a.looks
  | .cleaning =>
    if a.clock = [] then none
    else a.created?.bind fun c => cleanupFailure? ((required c).map (·.1)) a.deletions
  | .downloading => a.downloads.findSome? fun answer => (error? answer).map fun e =>
      "error while downloading certificate: " ++ e.message
  | .encoding => a.downloads.findSome? fun answer =>
      answer.toOption.bind fun d => (error? (bundle d)).map Error.message

/-- The message of the first stage that failed. -/
def firstFailure : Option String := Stage.inOrder.findSome? (a.failure? s csr)

/-- The records that were asked for are those of the certificate that was created, domain by
domain, and polling was followed by the deletion of all of them. -/
def RecordsInTurn : Prop :=
  ∀ c, a.created? = some c → a.creations.map (·.1) = (required c).filterMap (·.2.cname?) ∧
    (a.clock ≠ [] → a.deletions.map (·.1) = ((required c).filterMap (·.2.cname?)).map (·.1))

end Replies

/-! ## What each part of an enrollment leaves -/

theorem replies_placeAll {hosts : List String} {r : Except String Unit}
    (h : Runs (placeAll hosts).run t r) :
    ∃ placed : List (String × Except Dns.Error Unit), replies t = { placings := placed } ∧
      placed.map (·.1) <+: hosts ∧ (r = .ok () → placed.map (·.1) = hosts) ∧
      error? r =
        placed.findSome? fun p => (error? p.2).map fun e => configurationError e.message := by
  induction hosts generalizing t with
  | nil =>
    obtain ⟨rfl, rfl⟩ := runs_pure.mp h
    exact ⟨[], rfl, List.prefix_rfl, fun _ => rfl, rfl⟩
  | cons host hosts ih =>
    rw [placeAll, runs_run_bind] at h
    obtain ⟨e, first, rfl⟩ | ⟨t₁, t₂, ⟨⟩, rfl, first, rest⟩ := h
    · obtain ⟨answer, asked, same⟩ := runs_orFail.mp first
      obtain rfl := runs_make.mp asked
      cases answer <;> cases same
      next e => exact ⟨[(host, .error e)], rfl, by simp, by rintro ⟨⟩, by simp⟩
    · obtain ⟨answer, asked, same⟩ := runs_orFail.mp first
      obtain rfl := runs_make.mp asked
      cases answer <;> cases same
      obtain ⟨placed, left, prefixed, all, first⟩ := ih rest
      refine ⟨(host, .ok ()) :: placed, ?_, ?_, fun ok => ?_, ?_⟩
      · rw [List.singleton_append, replies_cons, left]
        rfl
      · simpa using prefixed
      · simpa using all ok
      · simpa [List.findSome?_cons] using first

/-- Every domain gets its turn, and the first failure is that of the first domain that
failed. -/
theorem replies_createRecords {ds : List (String × DomainValidation)} {records : List Provisioned}
    {failures : List String} (h : Runs (createRecords ds) t (records, failures)) :
    ∃ made, replies t = { creations := made } ∧
      made.map (·.1) = ds.filterMap (·.2.cname?) ∧
      failures.head? = provisioningFailure? ds made ∧
      (failures = [] → records.map (·.domain) = ds.map (·.1) ∧
        records.map (·.host) = (ds.filterMap (·.2.cname?)).map (·.1)) := by
  induction ds generalizing t records failures with
  | nil =>
    obtain ⟨rfl, same⟩ := runs_done.mp h
    cases same
    exact ⟨[], rfl, rfl, rfl, fun _ => ⟨rfl, rfl⟩⟩
  | cons d ds ih =>
    obtain ⟨domain, v⟩ := d
    rw [createRecords] at h
    cases challenge : v.cname? with
    | none =>
      rw [challenge] at h
      obtain ⟨t₁, t₂, ⟨records', failures'⟩, rfl, others, rest⟩ := runs_bind.mp h
      obtain ⟨rfl, same⟩ := runs_done.mp rest
      cases same
      obtain ⟨made, left, inTurn, -, -⟩ := ih others
      refine ⟨made, by rw [List.append_nil]; exact left, ?_, ?_, by rintro ⟨⟩⟩
      · simp [challenge, inTurn]
      · simp [provisioningFailure?, challenge]
    | some pair =>
      obtain ⟨host, target⟩ := pair
      rw [challenge] at h
      obtain ⟨t₁, t₂, answer, rfl, asked, rest⟩ := runs_bind.mp h
      obtain rfl := runs_make.mp asked
      obtain ⟨t₃, t₄, ⟨records', failures'⟩, rfl, others, ending⟩ := runs_bind.mp rest
      obtain ⟨made, left, inTurn, first, domains⟩ := ih others
      have all : replies ([⟨.call (.createRecord host target), answer⟩] ++ (t₃ ++ [])) =
          { creations := ((host, target), answer) :: made } := by
        rw [List.append_nil, List.singleton_append, replies_cons, left]
        rfl
      cases answer with
      | ok done =>
        obtain ⟨rfl, same⟩ := runs_done.mp ending
        cases same
        refine ⟨((host, target), .ok ()) :: made, all, ?_, ?_, fun none_failed => ?_⟩
        · simp [challenge, inTurn]
        · simp [provisioningFailure?, challenge, first]
        · simpa [challenge] using domains none_failed
      | error e =>
        obtain ⟨rfl, same⟩ := runs_done.mp ending
        cases same
        refine ⟨((host, target), .error e) :: made, all, ?_, ?_, by rintro ⟨⟩⟩
        · simp [challenge, inTurn]
        · simp [provisioningFailure?, challenge]

theorem replies_deleteRecords {records : List Provisioned} {failures : List String}
    (h : Runs (deleteRecords records) t failures) :
    ∃ gone, replies t = { deletions := gone } ∧ gone.map (·.1) = records.map (·.host) ∧
      failures.head? = cleanupFailure? (records.map (·.domain)) gone := by
  induction records generalizing t failures with
  | nil =>
    obtain ⟨rfl, rfl⟩ := runs_done.mp h
    exact ⟨[], rfl, rfl, rfl⟩
  | cons r records ih =>
    rw [deleteRecords] at h
    obtain ⟨t₁, t₂, answer, rfl, asked, rest⟩ := runs_bind.mp h
    obtain rfl := runs_make.mp asked
    obtain ⟨t₃, t₄, failures', rfl, others, ending⟩ := runs_bind.mp rest
    obtain ⟨gone, left, inTurn, first⟩ := ih others
    have all : replies ([⟨.call (.deleteRecord r.host), answer⟩] ++ (t₃ ++ [])) =
        { deletions := (r.host, answer) :: gone } := by
      rw [List.append_nil, List.singleton_append, replies_cons, left]
      rfl
    cases answer with
    | ok done =>
      obtain ⟨rfl, rfl⟩ := runs_done.mp ending
      refine ⟨(r.host, .ok ()) :: gone, all, by simp [inTurn], ?_⟩
      simpa [cleanupFailure?, List.findSome?_cons] using first
    | error e =>
      obtain ⟨rfl, rfl⟩ := runs_done.mp ending
      refine ⟨(r.host, .error e) :: gone, all, by simp [inTurn], ?_⟩
      simp [cleanupFailure?, List.findSome?_cons]

theorem error?_reportFirst (failures : List String) :
    error? (reportFirst failures) = failures.head? := by
  cases failures <;> rfl

/-- The error of provisioning does not depend on the deletions that follow it. -/
theorem replies_provision {c : Certificate} {r : Except String (List Provisioned)}
    (h : Runs (provision c).run t r) :
    ∃ made gone, replies t = { creations := made, deletions := gone } ∧
      made.map (·.1) = c.challenges.filterMap (·.2.cname?) ∧
      error? r = provisioningFailure? c.challenges made ∧
      ∀ records, r = .ok records → gone = [] ∧
        records.map (·.domain) = c.challenges.map (·.1) ∧
        records.map (·.host) = (c.challenges.filterMap (·.2.cname?)).map (·.1) := by
  obtain ⟨t₁, t₂, ⟨records, failures⟩, rfl, creating, rest⟩ := runs_bind.mp h
  obtain ⟨made, left, inTurn, first, domains⟩ := replies_createRecords creating
  cases failures with
  | nil =>
    obtain ⟨rfl, rfl⟩ := runs_done.mp rest
    refine ⟨made, [], by rw [List.append_nil]; exact left, inTurn, first, fun records' same => ?_⟩
    cases same
    exact ⟨rfl, domains rfl⟩
  | cons message more =>
    obtain ⟨t₃, t₄, failures', rfl, deleting, ending⟩ := runs_bind.mp rest
    obtain ⟨rfl, rfl⟩ := runs_done.mp ending
    obtain ⟨gone, undone, -⟩ := replies_deleteRecords deleting
    refine ⟨made, gone, ?_, inTurn, first, nofun⟩
    rw [List.append_nil, replies_append, left, undone]
    simp [Replies.append_def]

theorem replies_cleanup {records : List Provisioned} {r : Except String Unit}
    (h : Runs (cleanup records).run t r) :
    ∃ gone, replies t = { deletions := gone } ∧ gone.map (·.1) = records.map (·.host) ∧
      error? r = cleanupFailure? (records.map (·.domain)) gone := by
  obtain ⟨t₁, t₂, failures, rfl, deleting, rest⟩ := runs_bind.mp h
  obtain ⟨rfl, rfl⟩ := runs_done.mp rest
  obtain ⟨gone, left, inTurn, first⟩ := replies_deleteRecords deleting
  refine ⟨gone, by rw [List.append_nil]; exact left, inTurn, ?_⟩
  rw [error?_reportFirst, first]

theorem replies_validate {id : String} {trials : Nat} {reason : String} {r : Except String Unit}
    (h : Runs (validate id trials reason).run t r) :
    ∃ answers, replies t = { checks := answers } ∧ error? r =
      if answers.any isMet then none
      else some (unmet ((answers.getLast?.map details).getD reason)) := by
  induction trials generalizing reason t with
  | zero =>
    rw [validate, runs_throw] at h
    obtain ⟨rfl, rfl⟩ := h
    exact ⟨[], rfl, rfl⟩
  | succ trials ih =>
    rw [validate, runs_lift_bind] at h
    obtain ⟨t₁, t₂, answer, rfl, asked, rest⟩ := h
    obtain rfl := runs_make.mp asked
    cases answer with
    | error e =>
      change Runs (validate id 0 e.message).run t₂ r at rest
      rw [validate, runs_throw] at rest
      obtain ⟨rfl, rfl⟩ := rest
      exact ⟨[.error e], rfl, rfl⟩
    | ok outcome =>
      cases outcome with
      | validated body =>
        obtain ⟨rfl, rfl⟩ := runs_pure.mp rest
        exact ⟨[.ok (.validated body)], rfl, rfl⟩
      | failed reason' =>
        obtain ⟨answers, left, same⟩ := ih rest
        refine ⟨.ok (.failed reason') :: answers, ?_, ?_⟩
        · rw [List.singleton_append, replies_cons, left]
          rfl
        · rw [same, List.any_cons, List.getLast?_cons, Option.map_some, Option.getD_some,
            ← Option.getD_map details]
          rfl

theorem replies_pollFrom {p : Policy} {id : String} {start looks : Nat} {r : Except String Unit}
    (h : Runs (pollFrom p id start looks).run t r) :
    ∃ times seen, replies t = { clock := times, looks := seen } ∧
      error? r = pollingFailure? p id seen := by
  induction looks generalizing t with
  | zero =>
    rw [pollFrom, runs_throw] at h
    obtain ⟨rfl, rfl⟩ := h
    exact ⟨[], [], rfl, rfl⟩
  | succ looks ih =>
    rw [pollFrom, runs_lift_bind] at h
    obtain ⟨t₁, t₂, time, rfl, asked, rest⟩ := h
    obtain rfl := runs_call.mp asked
    split at rest
    · rw [pollFrom, runs_throw] at rest
      obtain ⟨rfl, rfl⟩ := rest
      exact ⟨[time], [], rfl, rfl⟩
    · obtain ⟨e, failed, rfl⟩ | ⟨t₃, t₄, c, rfl, looked, later⟩ := runs_run_bind.mp rest
      · obtain ⟨answer, asked, same⟩ := runs_orFail.mp failed
        obtain rfl := runs_make.mp asked
        cases answer <;> cases same
        next e => exact ⟨[time], [.error e], rfl, rfl⟩
      · obtain ⟨answer, asked, same⟩ := runs_orFail.mp looked
        obtain rfl := runs_make.mp asked
        cases answer <;> cases same
        split at later
        · next issued =>
          obtain ⟨rfl, rfl⟩ := runs_pure.mp later
          exact ⟨[time], [.ok c], rfl, by simp [pollingFailure?, issued]⟩
        · next notIssued =>
          split at later
          · next terminal =>
            obtain ⟨rfl, rfl⟩ := runs_throw.mp later
            refine ⟨[time], [.ok c], rfl, ?_⟩
            simp [pollingFailure?, notIssued, terminal]
          · next open_ =>
            obtain ⟨t₅, t₆, ⟨⟩, rfl, slept, again⟩ := runs_lift_bind.mp later
            obtain rfl := runs_call.mp slept
            obtain ⟨times, seen, left, same⟩ := ih again
            refine ⟨time :: times, .ok c :: seen, ?_, ?_⟩
            · simp only [List.cons_append, List.nil_append, replies_cons, left]
              rfl
            · rw [same, pollingFailure?, pollingFailure?, List.getLast?_cons]
              cases seen.getLast? <;> simp [notIssued, open_]

theorem replies_poll {s : Setup} {id : String} {r : Except String Unit}
    (h : Runs (poll s id).run t r) :
    ∃ times seen, replies t = { clock := times, looks := seen } ∧ times ≠ [] ∧
      error? r = pollingFailure? s.policy id seen := by
  rw [poll, runs_lift_bind] at h
  obtain ⟨t₁, t₂, start, rfl, asked, rest⟩ := h
  obtain rfl := runs_call.mp asked
  obtain ⟨times, seen, left, same⟩ := replies_pollFrom rest
  refine ⟨start :: times, seen, ?_, List.cons_ne_nil _ _, same⟩
  rw [List.singleton_append, replies_cons, left]
  rfl

/-- A preparation that succeeds has left no stage failed and has all records. -/
theorem replies_prepare {s : Setup} {c : Certificate} {records : List Provisioned}
    (h : Runs (prepare s c).run t (.ok records)) :
    ∃ made answers, replies t = { creations := made, checks := answers } ∧
      made.map (·.1) = (required c).filterMap (·.2.cname?) ∧
      provisioningFailure? (required c) made = none ∧
      (c.status.needsValidation = true → checksFailure? answers = none) ∧
      records.map (·.domain) = (required c).map (·.1) ∧
      records.map (·.host) = ((required c).filterMap (·.2.cname?)).map (·.1) := by
  cases needed : c.status.needsValidation with
  | false =>
    obtain ⟨rfl, same⟩ := runs_prepare_of_not_needed h needed
    cases same
    exact ⟨[], [], rfl, by simp [required, needed],
      by simp [required, needed, provisioningFailure?], nofun, by simp [required, needed]⟩
  | true =>
    obtain ⟨e, -, absurd⟩ | ⟨t₁, t₂, records', rfl, provisioning, rest⟩ := runs_prepare h needed
    · cases absurd
    obtain ⟨e, -, absurd⟩ | ⟨checking, same⟩ := rest
    · cases absurd
    cases same
    obtain ⟨made, gone, left, inTurn, stand, all⟩ := replies_provision provisioning
    obtain ⟨rfl, domains⟩ := all records rfl
    obtain ⟨answers, checked, met⟩ := replies_validate checking
    rw [required, if_pos needed]
    refine ⟨made, answers, ?_, inTurn, stand.symm, fun _ => met.symm, domains⟩
    rw [replies_append, left, checked]
    simp [Replies.append_def]

theorem replies_deliver {id : String} {r : Except String Issued} (h : Runs (deliver id).run t r) :
    ∃ answer : Except Authority.Error Download, replies t = { downloads := [answer] } ∧
      error? r = ((error? answer).map fun e =>
        "error while downloading certificate: " ++ e.message).or
          (answer.toOption.bind fun d => (error? (bundle d)).map Error.message) := by
  obtain ⟨e, failed, rfl⟩ | ⟨t₁, t₂, d, rfl, loaded, rest⟩ := runs_run_bind.mp h
  · obtain ⟨answer, asked, same⟩ := runs_orFail.mp failed
    obtain rfl := runs_make.mp asked
    cases answer <;> cases same
    next e => exact ⟨.error e, rfl, rfl⟩
  · obtain ⟨answer, asked, same⟩ := runs_orFail.mp loaded
    obtain rfl := runs_make.mp asked
    cases answer <;> cases same
    obtain ⟨rfl, rfl⟩ := runs_result.mp rest
    refine ⟨.ok d, rfl, ?_⟩
    change error? ((bundle d).mapError Error.message) = (error? (bundle d)).map Error.message
    cases bundle d <;> rfl

end CertEnrollment.Enrollment
