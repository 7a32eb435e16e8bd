import CertEnrollment.Proofs.Enrollment.Progress

/-!
# The course of an enrollment

A complete enrollment took one of five courses, and each of them shows in what was asked for:
the request could not be read, a host could not be placed, the cache had a certificate, or
it had none and the work on a new one failed or succeeded.
-/
namespace CertEnrollment.Enrollment
open Authority Cache Interaction

/-- How an enrollment went from its beginning to its end. -/
inductive Course (s : Setup) (csr : List UInt8) : Transcript → Except String Issued → Prop
  | malformed {e : Error} (malformed : SigningRequest.parse csr = .error e) :
      Course s csr [] (.error (configurationError e.message))
  | refused {r : SigningRequest} {t : Transcript} {e : String}
      (parsed : SigningRequest.parse csr = .ok r)
      (placing : Runs (placeAll r.names).run t (.error e)) : Course s csr t (.error e)
  | served {r : SigningRequest} {t : Transcript} {c : Issued}
      {answer : (readAsk (.ofNames r.names)).Answer} (parsed : SigningRequest.parse csr = .ok r)
      (placing : Runs (placeAll r.names).run t (.ok ()))
      (hit : found (.ofNames r.names) answer = some c) :
      Course s csr (t ++ ⟨.lock (.ofNames r.names), ()⟩ ::
        ⟨readAsk (.ofNames r.names), answer⟩ :: [⟨.unlock, ()⟩]) (.ok c)
  | failed {r : SigningRequest} {t u : Transcript} {e : String}
      {answer : (readAsk (.ofNames r.names)).Answer} (parsed : SigningRequest.parse csr = .ok r)
      (placing : Runs (placeAll r.names).run t (.ok ()))
      (miss : found (.ofNames r.names) answer = none) (running : Runs (run s r).run u (.error e)) :
      Course s csr (t ++ ⟨.lock (.ofNames r.names), ()⟩ ::
        ⟨readAsk (.ofNames r.names), answer⟩ :: (u ++ [⟨.unlock, ()⟩])) (.error e)
  | issued {r : SigningRequest} {t u : Transcript} {c : Issued}
      {answer : (readAsk (.ofNames r.names)).Answer} (parsed : SigningRequest.parse csr = .ok r)
      (placing : Runs (placeAll r.names).run t (.ok ()))
      (miss : found (.ofNames r.names) answer = none) (running : Runs (run s r).run u (.ok c))
      (written : Except String Unit) :
      Course s csr (t ++ ⟨.lock (.ofNames r.names), ()⟩ ::
        ⟨readAsk (.ofNames r.names), answer⟩ ::
          (u ++ ⟨writeAsk s (.ofNames r.names) c, written⟩ :: [⟨.unlock, ()⟩])) (.ok c)

variable {s : Setup} {csr : List UInt8} {t : Transcript} {result : Except String Issued}

/-- There are no other courses. -/
theorem course_of_runs (h : Runs (issue s csr).run t result) : Course s csr t result := by
  cases parsed : SigningRequest.parse csr with
  | error e =>
    rw [issue_malformed parsed] at h
    obtain ⟨rfl, rfl⟩ := runs_done.mp h
    exact .malformed parsed
  | ok r =>
    rw [issue_eq parsed] at h
    obtain ⟨t₁, t₂, placed, rfl, placing, rest⟩ := runs_bind.mp h
    cases placed with
    | error e =>
      obtain ⟨rfl, rfl⟩ := runs_done.mp rest
      rw [List.append_nil]
      exact .refused parsed placing
    | ok _ =>
      obtain ⟨⟨⟩, t₃, rfl, locked⟩ := runs_ask.mp rest
      obtain ⟨t₄, t₅, outcome, rfl, issuing, ending⟩ := runs_bind.mp locked
      obtain ⟨⟨⟩, t₆, rfl, done⟩ := runs_ask.mp ending
      obtain ⟨rfl, rfl⟩ := runs_done.mp done
      rw [issueLocked_eq] at issuing
      obtain ⟨answer, t₇, rfl, looked⟩ := runs_ask.mp issuing
      cases hit : found (.ofNames r.names) answer with
      | some c =>
        rw [hit] at looked
        obtain ⟨rfl, rfl⟩ := runs_done.mp looked
        exact .served parsed placing hit
      | none =>
        rw [hit, issueAnew] at looked
        obtain ⟨u, v, outcome, rfl, running, storing⟩ := runs_bind.mp looked
        cases outcome with
        | error e =>
          obtain ⟨rfl, rfl⟩ := runs_done.mp storing
          rw [List.append_nil]
          exact .failed parsed placing hit running
        | ok c =>
          obtain ⟨written, w, rfl, done⟩ := runs_ask.mp storing
          obtain ⟨rfl, rfl⟩ := runs_done.mp done
          rw [List.cons_append, List.append_assoc]
          exact .issued parsed placing hit running written

end CertEnrollment.Enrollment
