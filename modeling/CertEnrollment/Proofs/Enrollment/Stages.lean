import CertEnrollment.Enrollment.Workflow
import CertEnrollment.Proofs.Transcript

/-!
# The stages of a run

Every transcript of a run falls into the transcripts of its stages, and the first stage
that fails is the last one, except that the cleanup follows the polling in any case. The
stages and what each one asks for are told apart here once, so that a statement on runs
only has to look at one stage after the other.
-/
namespace CertEnrollment.Enrollment
open Authority Cache Interaction

abbrev Transcript := List (Event Ask Ask.Answer)

variable {t : Transcript}

@[simp] theorem runs_make {c : Call} {a : c.Answer} : Runs c.make t a ↔ t = [⟨.call c, a⟩] :=
  runs_call

@[simp] theorem runs_orFail {ε α : Type} {answer : Flow (Except ε α)} {what : String}
    {message : ε → String} {r : Except String α} :
    Runs (Call.orFail answer what message).run t r ↔
      ∃ a, Runs answer t a ∧ r = a.mapError fun e => what ++ message e :=
  runs_map

theorem asks_orFail {ε α : Type} {answer : Flow (Except ε α)} {what : String}
    {message : ε → String} {p : Ask → Prop} (h : answer.Asks p) :
    (Call.orFail answer what message).run.Asks p :=
  h.map _

/-! ## Checks of the challenges -/

/-- The authority answered that the challenges are met. -/
def Event.isValidation : Event Ask Ask.Answer → Bool
  | ⟨.call (.check _), .ok outcome⟩ => outcome.isValidated
  | _ => false

/-- The checks end the first time that the challenges are met, and else with the message
for challenges that are not. -/
theorem runs_validate {id : String} {trials : Nat} {details : String}
    {r : Except String Unit} (h : Runs (validate id trials details).run t r) :
    (∀ e ∈ t, e.request = .call (.check id)) ∧
      ((r = .ok () ∧ ∃ e ∈ t, Event.isValidation e = true) ∨
        ((∃ reason, r = .error (unmet reason)) ∧ ∀ e ∈ t, Event.isValidation e = false)) := by
  induction trials generalizing details t with
  | zero =>
    rw [validate, runs_throw] at h
    obtain ⟨rfl, rfl⟩ := h
    exact ⟨by simp, .inr ⟨⟨details, rfl⟩, by simp⟩⟩
  | succ trials ih =>
    rw [validate, runs_lift_bind] at h
    obtain ⟨t₁, t₂, answer, rfl, asked, rest⟩ := h
    obtain rfl := runs_make.mp asked
    cases answer with
    | error e =>
      change Runs (validate id 0 e.message).run t₂ r at rest
      rw [validate, runs_throw] at rest
      obtain ⟨rfl, rfl⟩ := rest
      exact ⟨by simp, .inr ⟨⟨e.message, rfl⟩, by simp [Event.isValidation]⟩⟩
    | ok outcome =>
      cases outcome with
      | validated body =>
        obtain ⟨rfl, rfl⟩ := runs_pure.mp rest
        exact ⟨by simp, .inl ⟨rfl, _, List.mem_cons_self, rfl⟩⟩
      | failed reason =>
        obtain ⟨checks, outcome⟩ := ih rest
        refine ⟨by simpa using checks, ?_⟩
        simpa [Event.isValidation, VerificationOutcome.isValidated] using outcome

theorem asks_validate (id : String) (trials : Nat) (details : String) :
    (validate id trials details).run.Asks (· = .call (.check id)) := by
  induction trials generalizing details with
  | zero =>
    rw [validate]
    exact asks_throw
  | succ trials ih =>
    rw [validate]
    refine Asks.lift_bind (asks_call.mpr rfl) fun answer => ?_
    split
    · exact asks_pure
    · exact ih _
    · rw [validate]
      exact asks_throw

/-! ## Looks at the status -/

/-- What polling asks for: the time, the status, and a pause. -/
def Ask.polls (id : String) : Ask → Prop
  | .now => True
  | .sleep _ => True
  | .call c => c = .get id
  | _ => False

theorem asks_pollFrom (p : Policy) (id : String) (start looks : Nat) :
    (pollFrom p id start looks).run.Asks (Ask.polls id) := by
  induction looks with
  | zero =>
    rw [pollFrom]
    exact asks_throw
  | succ looks ih =>
    rw [pollFrom]
    refine Asks.lift_bind (asks_call.mpr trivial) fun time => ?_
    split
    · rw [pollFrom]
      exact asks_throw
    · refine Asks.run_bind (asks_orFail (asks_call.mpr rfl)) fun c => ?_
      split
      · exact asks_pure
      · split
        · exact asks_throw
        · exact Asks.lift_bind (asks_call.mpr trivial) fun _ => ih

/-- Polling begins with a look at the clock and asks for nothing but time and status. -/
theorem runs_poll {s : Setup} {id : String} {r : Except String Unit}
    (h : Runs (poll s id).run t r) :
    (∃ start rest, t = ⟨.now, start⟩ :: rest) ∧ ∀ e ∈ t, e.request.polls id := by
  rw [poll, runs_lift_bind] at h
  obtain ⟨t₁, t₂, start, rfl, asked, rest⟩ := h
  obtain rfl := runs_call.mp asked
  refine ⟨⟨start, t₂, rfl⟩, List.forall_mem_cons.mpr ⟨trivial, ?_⟩⟩
  exact rest.asks (asks_pollFrom s.policy id start s.looks)

/-! ## The whole run -/

/-- The request to create the certificate. -/
def SigningRequest.creation (r : SigningRequest) (s : Setup) : Call :=
  .create r.names r.pem s.policy.validityDays

/-- How a run fell into its stages and where it ended. -/
inductive Stages (s : Setup) (r : SigningRequest) : Transcript → Except String Issued → Prop
  | notCreated (e : Authority.Error) :
      Stages s r [⟨.call (r.creation s), .error e⟩]
        (.error ("error while creating certificate: " ++ e.message))
  | notProvisioned {c : Certificate} {t : Transcript} {e : String}
      (needed : c.status.needsValidation = true) (provisioning : Runs (provision c).run t (.error e)) :
      Stages s r (⟨.call (r.creation s), .ok c⟩ :: t) (.error e)
  | notValidated {c : Certificate} {records : List Provisioned} {t₁ t₂ : Transcript} {e : String}
      (needed : c.status.needsValidation = true)
      (provisioning : Runs (provision c).run t₁ (.ok records))
      (checks : Runs (validate c.id s.policy.verifyTrials "no details given").run t₂ (.error e)) :
      Stages s r (⟨.call (r.creation s), .ok c⟩ :: (t₁ ++ t₂)) (.error e)
  | polled {c : Certificate} {records : List Provisioned} {t₁ t₂ t₃ t₄ : Transcript}
      {polled cleaned : Except String Unit} {result : Except String Issued}
      (prepared : Runs (prepare s c).run t₁ (.ok records))
      (polling : Runs (poll s c.id).run t₂ polled)
      (cleaning : Runs (cleanup records).run t₃ cleaned)
      (ending : (∃ e, polled = .error e ∧ t₄ = [] ∧ result = .error e) ∨
        (∃ e, polled = .ok () ∧ cleaned = .error e ∧ t₄ = [] ∧ result = .error e) ∨
        (polled = .ok () ∧ cleaned = .ok () ∧ Runs (deliver c.id).run t₄ result)) :
      Stages s r (⟨.call (r.creation s), .ok c⟩ :: (t₁ ++ (t₂ ++ (t₃ ++ t₄)))) result

/-- The preparation of a certificate that has to be validated, with its two stages. -/
theorem runs_prepare {s : Setup} {c : Certificate} {r : Except String (List Provisioned)}
    (h : Runs (prepare s c).run t r) (needed : c.status.needsValidation = true) :
    (∃ e, Runs (provision c).run t (.error e) ∧ r = .error e) ∨
    ∃ t₁ t₂ records, t = t₁ ++ t₂ ∧ Runs (provision c).run t₁ (.ok records) ∧
      ((∃ e, Runs (validate c.id s.policy.verifyTrials "no details given").run t₂ (.error e) ∧
          r = .error e) ∨
        (Runs (validate c.id s.policy.verifyTrials "no details given").run t₂ (.ok ()) ∧
          r = .ok records)) := by
  rw [prepare, if_pos needed, runs_run_bind] at h
  obtain ⟨e, failed, rfl⟩ | ⟨t₁, t₂, records, rfl, provisioning, rest⟩ := h
  · exact .inl ⟨e, failed, rfl⟩
  refine .inr ⟨t₁, t₂, records, rfl, provisioning, ?_⟩
  obtain ⟨e, failed, rfl⟩ | ⟨t₃, t₄, ⟨⟩, rfl, checks, rest⟩ := runs_run_bind.mp rest
  · exact .inl ⟨e, failed, rfl⟩
  obtain ⟨rfl, rfl⟩ := runs_pure.mp rest
  exact .inr ⟨by simpa using checks, rfl⟩

/-- A certificate that needs no validation is left alone. -/
theorem runs_prepare_of_not_needed {s : Setup} {c : Certificate}
    {r : Except String (List Provisioned)} (h : Runs (prepare s c).run t r)
    (notNeeded : c.status.needsValidation = false) : t = [] ∧ r = .ok [] := by
  rw [prepare, if_neg (by simp [notNeeded])] at h
  exact runs_pure.mp h

/-- A preparation that fails does so in one of its two stages. -/
theorem stages_of_prepare_error {s : Setup} {r : SigningRequest} {c : Certificate} {e : String}
    (h : Runs (prepare s c).run t (.error e)) :
    Stages s r (⟨.call (r.creation s), .ok c⟩ :: t) (.error e) := by
  cases needed : c.status.needsValidation with
  | false =>
    obtain ⟨-, absurd⟩ := runs_prepare_of_not_needed h needed
    cases absurd
  | true =>
    obtain ⟨e', failed, same⟩ | ⟨t₁, t₂, records, rfl, provisioning, rest⟩ := runs_prepare h needed
    · cases same
      exact .notProvisioned needed failed
    · obtain ⟨e', checks, same⟩ | ⟨-, absurd⟩ := rest
      · cases same
        exact .notValidated needed provisioning checks
      · cases absurd

/-- Every run falls into stages. -/
theorem stages_of_runs {s : Setup} {r : SigningRequest} {result : Except String Issued}
    (h : Runs (run s r).run t result) : Stages s r t result := by
  rw [run, runs_run_bind] at h
  obtain ⟨e, failed, rfl⟩ | ⟨t₀, u₀, c, rfl, created, rest₀⟩ := h
  · obtain ⟨answer, asked, same⟩ := runs_orFail.mp failed
    obtain rfl := runs_make.mp asked
    cases answer with
    | error e' =>
      cases same
      exact .notCreated e'
    | ok c => cases same
  obtain ⟨answer, asked, same⟩ := runs_orFail.mp created
  obtain rfl := runs_make.mp asked
  cases answer <;> cases same
  obtain ⟨e, failed, rfl⟩ | ⟨t₁, u₁, records, rfl, prepared, rest₁⟩ := runs_run_bind.mp rest₀
  · exact stages_of_prepare_error failed
  obtain ⟨t₂, u₂, polled, rfl, polling, rest₂⟩ := runs_lift_bind.mp rest₁
  obtain ⟨t₃, t₄, cleaned, rfl, cleaning, rest₃⟩ := runs_lift_bind.mp rest₂
  rw [List.singleton_append]
  refine .polled prepared polling cleaning ?_
  obtain ⟨e, rfl, rfl, rfl⟩ | ⟨⟨⟩, rfl, rest₄⟩ := runs_result_bind.mp rest₃
  · exact .inl ⟨e, rfl, rfl, rfl⟩
  obtain ⟨e, rfl, rfl, rfl⟩ | ⟨⟨⟩, rfl, rest₅⟩ := runs_result_bind.mp rest₄
  · exact .inr (.inl ⟨e, rfl, rfl, rfl, rfl⟩)
  · exact .inr (.inr ⟨rfl, rfl, rest₅⟩)

end CertEnrollment.Enrollment
