import CertEnrollment.Proofs.Authority.Exchanges
import CertEnrollment.Proofs.Authority.Refusals
import CertEnrollment.Proofs.Enrollment.Handlers

/-!
# How often the challenges are checked

The checks go on as long as the authority answers that the challenges are not met, but only so many
times. The stream of its answers decides how many of them are asked for and what the message is in
the end.
-/
namespace CertEnrollment.Enrollment
open Authority Data Interaction

/-- The answers to the checks of a certificate; the first one is at position one. -/
abbrev CheckAnswers := Nat → Except Authority.Error VerificationOutcome

/-- The answer ends the checks: the challenges are met, or there was an error. -/
def Settles : Except Authority.Error VerificationOutcome → Prop
  | .ok (.failed _) => False
  | _ => True

/-- The first answer that ends the checks is at this position. -/
def SettledAt (answer : CheckAnswers) (k : Nat) : Prop :=
  0 < k ∧ Settles (answer k) ∧ ∀ j, 0 < j → j < k → ¬ Settles (answer j)

/-- So many checks of the certificate, after the first ones. -/
def checksFrom (id : String) (answer : CheckAnswers) (before n : Nat) : Transcript :=
  (List.range' (before + 1) n).map fun i => ⟨.call (.check id), answer i⟩

/-- What becomes of the checks: how many there are, and with which result. -/
structure Bounded (answer : CheckAnswers) (trials calls : Nat) (r : Except String Unit) : Prop where
  settled : ∀ k, SettledAt answer k → calls = min trials k
  unsettled : (∀ k, ¬ SettledAt answer k) → calls = trials
  validated : r = .ok () ↔
    ∃ k ≤ trials, SettledAt answer k ∧ ∃ body, answer k = .ok (.validated body)
  failed : ∀ k ≤ trials, SettledAt answer k → ∀ e, answer k = .error e →
    r = .error (unmet e.message)
  exhausted : 0 < trials → (∀ k ≤ trials, ¬ SettledAt answer k) →
    ∃ details, answer calls = .ok (.failed details) ∧ r = .error (unmet details)
  untried : trials = 0 → r = .error (unmet "no details given")

section
variable {id : String} {answer : CheckAnswers} {before n m trials : Nat} {details : String}
  {t : Transcript} {r : Except String Unit}

theorem not_settles_iff {a : Except Authority.Error VerificationOutcome} :
    ¬ Settles a ↔ ∃ details, a = .ok (.failed details) := by
  obtain e | body | details := a
  · simp [Settles]
  · simp [Settles]
  · simp [Settles]

theorem SettledAt.unique {j k : Nat} (hj : SettledAt answer j) (hk : SettledAt answer k) :
    j = k := by
  rcases Nat.lt_trichotomy j k with before | same | after
  · exact absurd hj.2.1 (hk.2.2 j hj.1 before)
  · exact same
  · exact absurd hk.2.1 (hj.2.2 k hk.1 after)

/-- Unless the checks ended before, the first answer that would end them has not come yet. -/
theorem settledAt_or_unsettled (answer : CheckAnswers) (trials : Nat) :
    (∃ k ≤ trials, SettledAt answer k) ∨ ∀ j, 0 < j → j ≤ trials → ¬ Settles (answer j) := by
  induction trials with
  | zero => exact .inr fun j positive zero => absurd positive (by omega)
  | succ trials ih =>
    obtain ⟨k, early, settled⟩ | unsettled := ih
    · exact .inl ⟨k, by omega, settled⟩
    · by_cases last : Settles (answer (trials + 1))
      · exact .inl ⟨trials + 1, by omega, by omega, last,
          fun j positive h => unsettled j positive (by omega)⟩
      · refine .inr fun j positive h => ?_
        obtain rfl | earlier : j = trials + 1 ∨ j ≤ trials := by omega
        · exact last
        · exact unsettled j positive earlier

/-! ## Runs of the checks -/

theorem checksFrom_succ :
    checksFrom id answer before (n + 1) =
      ⟨.call (.check id), answer (before + 1)⟩ :: checksFrom id answer (before + 1) n := rfl

theorem checksFrom_append :
    checksFrom id answer before (n + m) =
      checksFrom id answer before n ++ checksFrom id answer (before + n) m := by
  have more : before + n + 1 = before + 1 + 1 * n := by omega
  rw [checksFrom, checksFrom, checksFrom, ← List.map_append, more, List.range'_append]

theorem runs_validate_zero :
    Runs (validate id 0 details).run t r ↔ t = [] ∧ r = .error (unmet details) := by
  rw [validate, runs_throw]

theorem runs_validate_succ {a : Except Authority.Error VerificationOutcome} :
    Runs (validate id (n + 1) details).run (⟨.call (.check id), a⟩ :: t) r ↔
      Runs (match a with
        | .ok (.validated _) => pure ()
        | .ok (.failed details) => validate id n details
        | .error e => validate id 0 e.message : Action Unit).run t r := by
  rw [validate, runs_lift_bind]
  constructor
  · rintro ⟨t₁, t₂, b, same, asked, rest⟩
    obtain rfl := runs_make.mp asked
    cases same
    exact rest
  · intro rest
    exact ⟨_, t, a, rfl, runs_make.mpr rfl, rest⟩

/-- As long as no answer ends the checks they go on, with the details of the last answer. -/
theorem runs_validate_unsettled (id details : String)
    (unsettled : ∀ j, before < j → j ≤ before + n → ¬ Settles (answer j)) :
    ∃ details', (n = 0 → details' = details) ∧
      (0 < n → answer (before + n) = .ok (.failed details')) ∧
      ∀ m t r, Runs (validate id m details').run t r →
        Runs (validate id (n + m) details).run (checksFrom id answer before n ++ t) r := by
  induction n generalizing before details with
  | zero => exact ⟨details, fun _ => rfl, by simp, fun m t r run => by simpa [checksFrom] using run⟩
  | succ n ih =>
    obtain ⟨first, same⟩ := not_settles_iff.mp (unsettled (before + 1) (by omega) (by omega))
    have later : ∀ j, before + 1 < j → j ≤ before + 1 + n → ¬ Settles (answer j) :=
      fun j low high => unsettled j (by omega) (by omega)
    obtain ⟨last, none_left, some_left, go⟩ := ih first later
    refine ⟨last, by simp, fun _ => ?_, fun m t r run => ?_⟩
    · cases n with
      | zero => rw [none_left rfl, same]
      | succ n => rw [← some_left (by omega)]; congr 1; omega
    · rw [checksFrom_succ, List.cons_append, show n + 1 + m = n + m + 1 by omega,
        runs_validate_succ, same]
      exact go m t r run

/-- The first answer that ends the checks is the last one that is asked for. -/
theorem runs_validate_settled (id details : String) {k : Nat} (early : k ≤ trials)
    (settled : SettledAt answer k) :
    ∃ r, Runs (validate id trials details).run (checksFrom id answer 0 k) r ∧
      ((∃ body, answer k = .ok (.validated body)) ∧ r = .ok () ∨
        ∃ e, answer k = .error e ∧ r = .error (unmet e.message)) := by
  obtain ⟨positive, settles, first⟩ := settled
  obtain ⟨k, rfl⟩ : ∃ n, k = n + 1 := ⟨k - 1, by omega⟩
  obtain ⟨m, rfl⟩ : ∃ m, trials = k + (m + 1) := ⟨trials - (k + 1), by omega⟩
  have earlier : ∀ j, 0 < j → j ≤ 0 + k → ¬ Settles (answer j) :=
    fun j low high => first j low (by omega)
  obtain ⟨last, -, -, go⟩ := runs_validate_unsettled id details earlier
  have whole : checksFrom id answer 0 (k + 1) =
      checksFrom id answer 0 k ++ [⟨.call (.check id), answer (k + 1)⟩] := by
    rw [checksFrom_append, Nat.zero_add]
    rfl
  rw [whole]
  cases given : answer (k + 1) with
  | error e =>
    refine ⟨.error (unmet e.message), go (m + 1) _ _ (runs_validate_succ.mpr ?_),
      .inr ⟨e, rfl, rfl⟩⟩
    exact runs_validate_zero.mpr ⟨rfl, rfl⟩
  | ok outcome =>
    cases outcome with
    | validated body =>
      refine ⟨.ok (), go (m + 1) _ _ (runs_validate_succ.mpr ?_), .inl ⟨⟨body, rfl⟩, rfl⟩⟩
      exact runs_pure.mpr ⟨rfl, rfl⟩
    | failed reason =>
      rw [given] at settles
      exact settles.elim

/-- Without such an answer all checks are made. -/
theorem runs_validate_exhausted (id details : String)
    (unsettled : ∀ j, 0 < j → j ≤ trials → ¬ Settles (answer j)) :
    ∃ last, Runs (validate id trials details).run (checksFrom id answer 0 trials)
        (.error (unmet last)) ∧
      (trials = 0 → last = details) ∧ (0 < trials → answer trials = .ok (.failed last)) := by
  have all : ∀ j, 0 < j → j ≤ 0 + trials → ¬ Settles (answer j) :=
    fun j low high => unsettled j low (by omega)
  obtain ⟨last, none_left, some_left, go⟩ := runs_validate_unsettled id details all
  refine ⟨last, ?_, none_left, by simpa using some_left⟩
  have run := go 0 [] (.error (unmet last)) (runs_validate_zero.mpr ⟨rfl, rfl⟩)
  simpa using run

theorem bounded_of_settled {k : Nat} (early : k ≤ trials) (settled : SettledAt answer k)
    (outcome : (∃ body, answer k = .ok (.validated body)) ∧ r = .ok () ∨
      ∃ e, answer k = .error e ∧ r = .error (unmet e.message)) :
    Bounded answer trials k r where
  settled k' settled' := by
    rw [settled'.unique settled, Nat.min_eq_right early]
  unsettled never := absurd settled (never k)
  validated := by
    constructor
    · rintro rfl
      obtain ⟨met, -⟩ | ⟨e, -, absurd⟩ := outcome
      · exact ⟨k, early, settled, met⟩
      · cases absurd
    · rintro ⟨k', -, settled', body, met⟩
      obtain ⟨-, rfl⟩ | ⟨e, same, -⟩ := outcome
      · rfl
      · rw [settled.unique settled', met] at same
        cases same
  failed := by
    intro k' _ settled' e given
    obtain ⟨⟨body, same⟩, -⟩ | ⟨e', same, rfl⟩ := outcome
    · rw [settled.unique settled', given] at same
      cases same
    · rw [settled.unique settled', given] at same
      cases same
      rfl
  exhausted _ late := absurd settled (late k early)
  untried none_tried := absurd settled.1 (by omega)

theorem bounded_of_unsettled {last : String}
    (unsettled : ∀ j, 0 < j → j ≤ trials → ¬ Settles (answer j))
    (none_tried : trials = 0 → last = "no details given")
    (some_tried : 0 < trials → answer trials = .ok (.failed last)) :
    Bounded answer trials trials (.error (unmet last)) := by
  have late : ∀ k, SettledAt answer k → ¬ k ≤ trials := fun k settled early =>
    unsettled k settled.1 early settled.2.1
  refine ⟨fun k settled => ?_, fun _ => rfl, ⟨?_, ?_⟩, ?_, ?_, ?_⟩
  · have := late k settled
    omega
  · rintro ⟨⟩
  · rintro ⟨k, early, settled, -⟩
    exact absurd early (late k settled)
  · intro k early settled
    exact absurd early (late k settled)
  · exact fun positive _ => ⟨last, some_tried positive, rfl⟩
  · intro zero
    rw [none_tried zero]

/-- How far the checks get in a stream of answers, and what comes of them. -/
theorem exists_bounded (id : String) (trials : Nat) (answer : CheckAnswers) :
    ∃ calls r, Bounded answer trials calls r ∧
      Runs (validate id trials "no details given").run (checksFrom id answer 0 calls) r := by
  obtain ⟨k, early, settled⟩ | unsettled := settledAt_or_unsettled answer trials
  · obtain ⟨r, run, outcome⟩ := runs_validate_settled id "no details given" early settled
    exact ⟨k, r, bounded_of_settled early settled outcome, run⟩
  · obtain ⟨last, run, none_tried, some_tried⟩ :=
      runs_validate_exhausted id "no details given" unsettled
    exact ⟨trials, _, bounded_of_unsettled unsettled none_tried some_tried, run⟩

/-- The stream of answers leaves no choice. -/
theorem eq_of_runs_validate {calls : Nat} {r' : Except String Unit}
    (run : Runs (validate id trials details).run (checksFrom id answer 0 calls) r)
    (run' : Runs (validate id trials details).run (checksFrom id answer 0 n) r') :
    n = calls ∧ r' = r := by
  have length : ∀ n, (checksFrom id answer 0 n).length = n := by simp [checksFrom]
  rcases Nat.le_total n calls with fewer | more
  · obtain ⟨m, rfl⟩ := Nat.exists_eq_add_of_le fewer
    rw [checksFrom_append] at run
    obtain ⟨done, same⟩ := run'.extend run
    obtain rfl : m = 0 := by simpa [checksFrom] using done
    exact ⟨rfl, same.symm⟩
  · obtain ⟨m, rfl⟩ := Nat.exists_eq_add_of_le more
    rw [checksFrom_append] at run'
    obtain ⟨done, same⟩ := run.extend run'
    obtain rfl : m = 0 := by simpa [checksFrom] using done
    exact ⟨rfl, same⟩

end

/-! ## Answers of the authority -/

/-- What a message says of a member: a text as it is, and anything else as JSON. -/
inductive SpeltOut : Value → String → Prop
  | text (s : String) : SpeltOut (.text s) s
  | json {v : Value} (other : ∀ s, v ≠ .text s) : SpeltOut v (Json.write v)

/-- The details of a refused check: the member `details`, or else `error`; a fixed text without
both. -/
inductive Reports (body : Value) : String → Prop
  | details {v : Value} {said : String} (there : body.member? "details" = some v)
      (spelt : SpeltOut v said) : Reports body said
  | error {v : Value} {said : String} (absent : body.member? "details" = none)
      (there : body.member? "error" = some v) (spelt : SpeltOut v said) : Reports body said
  | nothing (absent : body.member? "details" = none) (absent' : body.member? "error" = none) :
      Reports body "no details given"

/-- The response says that the challenges are not met: it is in 2xx, and its body refuses. -/
def Denies (response : Http.Response) (details : String) : Prop :=
  response.isSuccess = true ∧ ∃ body, Json.parseValue? response.text = some body ∧
    Refuses body ∧ Reports body details

theorem render_eq_iff {v : Value} {said : String} :
    VerificationOutcome.render v = said ↔ SpeltOut v said := by
  constructor
  · rintro rfl
    cases v with
    | text s => exact .text s
    | _ => exact .json nofun
  · rintro (⟨s⟩ | ⟨other⟩)
    · rfl
    · cases v with
      | text s => exact absurd rfl (other s)
      | _ => rfl

theorem ofBody_eq_failed {body : Value} {details : String} :
    VerificationOutcome.ofBody body = .failed details ↔ Refuses body ∧ Reports body details := by
  by_cases refuses : Refuses body
  · rw [VerificationOutcome.ofBody, if_pos (refuses_iff.mpr refuses)]
    constructor
    · intro h
      refine ⟨refuses, ?_⟩
      cases stated : body.member? "details" with
      | some v =>
        exact .details stated (render_eq_iff.mp (by simpa [stated] using h))
      | none =>
        cases kept : body.member? "error" with
        | some v =>
          exact .error stated kept (render_eq_iff.mp (by simpa [stated, kept] using h))
        | none =>
          obtain rfl : "no details given" = details := by simpa [stated, kept] using h
          exact .nothing stated kept
    · rintro ⟨-, ⟨there, spelt⟩ | ⟨absent, there, spelt⟩ | ⟨absent, absent'⟩⟩
      · simp [there, render_eq_iff.mpr spelt]
      · simp [absent, there, render_eq_iff.mpr spelt]
      · simp [absent, absent']
  · rw [VerificationOutcome.ofBody, if_neg (refuses_iff.not.mpr refuses)]
    simp [refuses]

theorem denies_iff {response : Http.Response} {details : String} :
    (Client.bodyOf response >>= fun body => .ok (VerificationOutcome.ofBody body)) =
        .ok (.failed details) ↔ Denies response details := by
  rw [bind_eq_ok, Denies, Client.bodyOf]
  cases success : response.isSuccess with
  | false => simp
  | true => cases Json.parseValue? response.text <;> simp [ofBody_eq_failed]

namespace Handler
variable {h : Handler} {memory memory' : Memory} {u : List (Event Ask Ask.Answer)}

/-- The handler sends the request of a call to the authority and is done with the answer. -/
theorem runs_onClient_ok {α : Type} {result : Http.Response → Except Authority.Error α}
    {x : ClientAction α} (exchanges : Client.Exchanges result x) {a : α} :
    Runs ((onClient x).run memory) u (.ok a, memory') ↔
      memory' = memory ∧ ∃ request next response,
        (onClient x).run memory = .ask (.exchange request) next ∧
        u = [⟨.exchange request, .ok response⟩] ∧ result response = .ok a := by
  cases exchanges with
  | unsent e =>
    have fails : (onClient (ExceptT.mk (.done (.error e)) : Authority.ClientAction α)).run memory =
        .done (.error e, memory) := rfl
    simp [fails]
  | sent request =>
    have sends : (onClient (ExceptT.mk (.ask request fun answer =>
        .done (Client.onResponse result answer)) : Authority.ClientAction α)).run memory =
          .ask (.exchange request) fun answer =>
            .done (Client.onResponse result answer, memory) := rfl
    rw [sends, runs_ask]
    constructor
    · rintro ⟨answer, rest, rfl, done⟩
      obtain ⟨rfl, same⟩ := runs_done.mp done
      obtain ⟨made, rfl⟩ := Prod.mk.inj same
      cases answer with
      | error f => cases made
      | ok response => exact ⟨rfl, request, _, response, rfl, rfl, made.symm⟩
    · rintro ⟨rfl, request', next, response, asked, rfl, made⟩
      cases asked
      refine ⟨.ok response, [], rfl, runs_done.mpr ⟨rfl, ?_⟩⟩
      rw [Client.onResponse, made]

end Handler

/-- The checks are exactly as many as the stream of answers demands. -/
theorem checks_bounded :
    (∀ id trials answer, ∃ calls r, Bounded answer trials calls r ∧ ∀ n r',
      Runs (validate id trials "no details given").run (checksFrom id answer 0 n) r' ↔
        n = calls ∧ r' = r) ∧
    ∀ (h : Handler) (id : String) (memory memory' : Handler.Memory)
      (u : List (Event Handler.Ask Handler.Ask.Answer)) (details : String),
      Runs ((h.respond (.check id)).run memory) u (.ok (.failed details), memory') ↔
        memory' = memory ∧ ∃ request next response,
          (h.respond (.check id)).run memory = .ask (.exchange request) next ∧
          u = [⟨.exchange request, .ok response⟩] ∧ Denies response details := by
  refine ⟨fun id trials answer => ?_, fun h id memory memory' u details => ?_⟩
  · obtain ⟨calls, r, bounded, run⟩ := exists_bounded id trials answer
    refine ⟨calls, r, bounded, fun n r' => ⟨eq_of_runs_validate run, ?_⟩⟩
    rintro ⟨rfl, rfl⟩
    exact run
  · obtain ⟨x, verifies⟩ : ∃ x, h.client.verify id .dns = x := ⟨_, rfl⟩
    have calls : h.respond (.check id) = Handler.onClient x := congrArg Handler.onClient verifies
    rw [calls, Handler.runs_onClient_ok (Client.exchanges_verify verifies)]
    simp only [denies_iff]

end CertEnrollment.Enrollment
