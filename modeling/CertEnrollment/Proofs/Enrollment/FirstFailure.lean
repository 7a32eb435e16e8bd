import CertEnrollment.Proofs.Enrollment.Replies

/-!
# The first failure

The stages of an enrollment have an order, and each one has failed or not by what the services
around the enrollment answered. The error of a response is that of the first stage that has
failed. What comes after it cannot change the error any more: the rollback of records is no
stage of its own, and the cleanup that follows the polling in any case comes behind it.
-/
namespace CertEnrollment.Enrollment
open Authority Cache Interaction

variable {t : Transcript}

/-! ## The first failure decides -/

theorem replies_creation {s : Setup} {r : SigningRequest}
    {answer : Except Authority.Error Certificate} :
    replies (⟨.call (r.creation s), answer⟩ :: t) = { certificates := [answer] } ++ replies t :=
  rfl

/-- Once a certificate is prepared, four stages are left to fail. -/
theorem findSome?_working {s : Setup} {csr : List UInt8} {a : Replies}
    (creating : a.failure? s csr .creating = none)
    (provisioning : a.failure? s csr .provisioning = none)
    (validating : a.failure? s csr .validating = none) :
    Stage.working.findSome? (a.failure? s csr) =
      (a.failure? s csr .polling).or ((a.failure? s csr .cleaning).or
        ((a.failure? s csr .downloading).or (a.failure? s csr .encoding))) := by
  simp only [Stage.working, List.findSome?_cons, creating, provisioning, validating]
  cases a.failure? s csr .polling with
  | some _ => rfl
  | none =>
    cases a.failure? s csr .cleaning with
    | some _ => rfl
    | none =>
      cases a.failure? s csr .downloading with
      | some _ => rfl
      | none => cases a.failure? s csr .encoding <;> rfl

/-- When all records stood and the challenges were met, it is polling that decides, then the
cleanup, and then the download. -/
theorem working_of_prepared {s : Setup} {csr : List UInt8} {c : Certificate}
    {made : List ((String × String) × Except Dns.Error Unit)}
    {answers : List (Except Authority.Error VerificationOutcome)} {times : List Nat}
    {seen : List (Except Authority.Error Certificate)}
    {gone : List (String × Except Dns.Error Unit)}
    (stand : provisioningFailure? (required c) made = none)
    (met : c.status.needsValidation = true → checksFailure? answers = none)
    (begun : times ≠ []) (loaded : List (Except Authority.Error Download)) :
    Stage.working.findSome? (Replies.failure?
        ⟨[], [.ok c], made, answers, times, seen, gone, loaded⟩ s csr) =
      (pollingFailure? s.policy c.id seen).or ((cleanupFailure? ((required c).map (·.1)) gone).or
        ((Replies.failure? { downloads := loaded } s csr .downloading).or
          (Replies.failure? { downloads := loaded } s csr .encoding))) := by
  refine (findSome?_working rfl (by exact stand) ?_).trans ?_
  · change (if c.status.needsValidation = true ∧ provisioningFailure? (required c) made = none
      then checksFailure? answers else none) = none
    split
    · next valid => exact met valid.1
    · rfl
  · simp [Replies.failure?, Replies.created?, Except.toOption, begun]

/-- The error of a run is that of the first of its stages that failed. -/
theorem error_of_stages {s : Setup} {r : SigningRequest} {result : Except String Issued}
    (h : Stages s r t result) (csr : List UInt8) :
    (replies t).placings = [] ∧ (replies t).RecordsInTurn ∧
      error? result = Stage.working.findSome? ((replies t).failure? s csr) := by
  cases h with
  | notCreated e => exact ⟨rfl, nofun, rfl⟩
  | @notProvisioned c t e needed provisioning =>
    obtain ⟨made, gone, left, inTurn, failed, -⟩ := replies_provision provisioning
    have all : replies (⟨.call (r.creation s), .ok c⟩ :: t) =
        { certificates := [.ok c], creations := made, deletions := gone } := by
      rw [replies_creation, left]
      rfl
    rw [all]
    refine ⟨rfl, fun _ same => ?_, ?_⟩
    · cases same
      rw [required, if_pos needed]
      exact ⟨inTurn, absurd rfl⟩
    · simp [Stage.working, Replies.failure?, Replies.created?, Except.toOption, required, needed,
        ← failed, List.findSome?_cons]
  | @notValidated c records t₁ t₂ e needed provisioning checking =>
    obtain ⟨made, gone, left, inTurn, stand, undeleted⟩ := replies_provision provisioning
    obtain ⟨rfl, -⟩ := undeleted records rfl
    obtain ⟨answers, checked, failed⟩ := replies_validate checking
    have failed : some e = checksFailure? answers := failed
    have all : replies (⟨.call (r.creation s), .ok c⟩ :: (t₁ ++ t₂)) =
        { certificates := [.ok c], creations := made, checks := answers } := by
      rw [replies_creation, replies_append, left, checked]
      simp [Replies.append_def]
    rw [all]
    refine ⟨rfl, fun _ same => ?_, ?_⟩
    · cases same
      rw [required, if_pos needed]
      exact ⟨inTurn, absurd rfl⟩
    · simp [Stage.working, Replies.failure?, Replies.created?, Except.toOption, required, needed,
        ← stand, ← failed, List.findSome?_cons]
  | @polled c records t₁ t₂ t₃ t₄ polled cleaned result prepared polling cleaning ending =>
    obtain ⟨made, answers, left₁, inTurn, stand, met, domains, hosts⟩ := replies_prepare prepared
    obtain ⟨times, seen, left₂, begun, waited⟩ := replies_poll polling
    obtain ⟨gone, left₃, undone, tidied⟩ := replies_cleanup cleaning
    obtain ⟨loaded, left₄, delivered⟩ : ∃ loaded, replies t₄ = { downloads := loaded } ∧
        error? result = (error? polled).or ((error? cleaned).or
          ((Replies.failure? { downloads := loaded } s csr .downloading).or
            (Replies.failure? { downloads := loaded } s csr .encoding))) := by
      obtain ⟨e, rfl, rfl, rfl⟩ | ⟨e, rfl, rfl, rfl, rfl⟩ | ⟨rfl, rfl, delivering⟩ := ending
      · exact ⟨[], rfl, rfl⟩
      · exact ⟨[], rfl, rfl⟩
      · obtain ⟨answer, left₄, delivered⟩ := replies_deliver delivering
        refine ⟨[answer], left₄, delivered.trans ?_⟩
        cases answer with
        | error e => rfl
        | ok d => simp [Replies.failure?, Except.toOption]
    have all : replies (⟨.call (r.creation s), .ok c⟩ :: (t₁ ++ (t₂ ++ (t₃ ++ t₄)))) =
        ⟨[], [.ok c], made, answers, times, seen, gone, loaded⟩ := by
      simp [replies_creation, left₁, left₂, left₃, left₄, Replies.append_def]
    rw [all]
    refine ⟨rfl, fun _ same => ?_, ?_⟩
    · cases same
      exact ⟨inTurn, fun _ => undone.trans hosts⟩
    · rw [working_of_prepared stand met begun, delivered, waited, tidied, domains]

/-- The first refusal of a host. -/
def refusal? (placed : List (String × Except Dns.Error Unit)) : Option String :=
  placed.findSome? fun p => (error? p.2).map fun e => configurationError e.message

/-- What a request that could be read leaves: its names are placed in turn, and a certificate is
worked on only if that went well. -/
theorem replies_of_course {s : Setup} {csr : List UInt8} {r : SigningRequest}
    {result : Except String Issued} (h : Course s csr t result)
    (parsed : SigningRequest.parse csr = .ok r) :
    ∃ placed, ∃ a : Replies, replies t = { a with placings := placed } ∧
      placed.map (·.1) <+: r.names ∧
      (refusal? placed = none → placed.map (·.1) = r.names) ∧
      (refusal? placed ≠ none → ∀ e ∈ t, e.request.places) ∧ a.RecordsInTurn ∧
      error? result = (refusal? placed).or (Stage.working.findSome? (a.failure? s csr)) := by
  cases h with
  | malformed malformed => cases parsed.symm.trans malformed
  | refused parsed' placing =>
    cases parsed.symm.trans parsed'
    obtain ⟨placed, left, inTurn, all, first⟩ := replies_placeAll placing
    have first : some _ = refusal? placed := first
    refine ⟨placed, {}, left, inTurn, fun none_refused => ?_,
      fun _ => placing.asks (asks_placeAll _), nofun, ?_⟩
    · cases first.trans none_refused
    · rw [← first]
      rfl
  | @served _ t c answer parsed' placing hit =>
    cases parsed.symm.trans parsed'
    obtain ⟨placed, left, inTurn, all, first⟩ := replies_placeAll placing
    have first : none = refusal? placed := first
    refine ⟨placed, {}, ?_, inTurn, fun _ => all rfl, (absurd first.symm ·), nofun, ?_⟩
    · simp [left, replies_cons, Event.replies, readAsk, Replies.append_def]
    · rw [← first]
      rfl
  | @failed _ t u e answer parsed' placing miss running =>
    cases parsed.symm.trans parsed'
    obtain ⟨placed, left, inTurn, all, first⟩ := replies_placeAll placing
    have first : none = refusal? placed := first
    obtain ⟨unplaced, records, working⟩ := error_of_stages (stages_of_runs running) csr
    refine ⟨placed, replies u, ?_, inTurn, fun _ => all rfl, (absurd first.symm ·), records, ?_⟩
    · simp [left, replies_cons, Event.replies, readAsk, Replies.append_def, unplaced]
    · rw [← first, working]
      rfl
  | @issued _ t u c answer parsed' placing miss running written =>
    cases parsed.symm.trans parsed'
    obtain ⟨placed, left, inTurn, all, first⟩ := replies_placeAll placing
    have first : none = refusal? placed := first
    obtain ⟨unplaced, records, working⟩ := error_of_stages (stages_of_runs running) csr
    refine ⟨placed, replies u, ?_, inTurn, fun _ => all rfl, (absurd first.symm ·), records, ?_⟩
    · simp [left, replies_cons, Event.replies, readAsk, writeAsk, Replies.append_def, unplaced]
    · rw [← first, working]
      rfl

/-- A request that cannot be read leaves nothing. -/
theorem course_malformed {s : Setup} {csr : List UInt8} {e : Error} {result : Except String Issued}
    (h : Course s csr t result) (malformed : SigningRequest.parse csr = .error e) :
    t = [] ∧ result = .error (configurationError e.message) := by
  cases h with
  | malformed malformed' =>
    cases malformed.symm.trans malformed'
    exact ⟨rfl, rfl⟩
  | refused parsed | served parsed | failed parsed | issued parsed =>
    cases parsed.symm.trans malformed

/-- The error of an enrollment is that of the first of its stages that failed. -/
theorem error_of_course {s : Setup} {csr : List UInt8} {result : Except String Issued}
    (h : Course s csr t result) : error? result = (replies t).firstFailure s csr := by
  cases parsed : SigningRequest.parse csr with
  | error e =>
    obtain ⟨rfl, rfl⟩ := course_malformed h parsed
    simp [Replies.firstFailure, Stage.inOrder, Replies.failure?, parsed]
  | ok r =>
    obtain ⟨placed, a, whole, -, -, -, -, first⟩ := replies_of_course h parsed
    rw [first, whole]
    have decoded : Replies.failure? { a with placings := placed } s csr .decoding = none := by
      simp [Replies.failure?, parsed]
    have placing : Replies.failure? { a with placings := placed } s csr .placing =
        refusal? placed :=
      rfl
    rw [Replies.firstFailure, Stage.inOrder, List.findSome?_cons, List.findSome?_cons, decoded,
      placing]
    cases refusal? placed <;> rfl

/-! ## The request at fault -/

theorem unlike_configuration {start rest : String}
    (unlike : start.toList.take 3 ≠ "configuration error: ".toList.take 3)
    (enough : 3 ≤ start.toList.length) :
    ¬ "configuration error: ".toList <+: (start ++ rest).toList := by
  rintro ⟨tail, same⟩
  have begins := congrArg (List.take 3) same
  rw [String.toList_append, List.take_append_of_le_length (by decide),
    List.take_append_of_le_length enough] at begins
  exact unlike begins.symm

theorem start_of_provisioningFailure {ds : List (String × DomainValidation)}
    {answers : List ((String × String) × Except Dns.Error Unit)} {message : String}
    (failed : provisioningFailure? ds answers = some message) :
    ∃ rest, message = "error while registering dns records " ++ rest := by
  induction ds generalizing answers with
  | nil => cases failed
  | cons d ds ih =>
    unfold provisioningFailure? at failed
    split at failed
    · cases failed
      exact ⟨_, by rw [String.append_assoc, String.append_assoc]⟩
    · cases failed
    · exact ih failed
    · cases failed
      exact ⟨_, by simp only [String.append_assoc]; rfl⟩

theorem start_of_pollingFailure {p : Policy} {id : String}
    {looks : List (Except Authority.Error Certificate)} {message : String}
    (failed : pollingFailure? p id looks = some message) :
    ∃ start ∈ ["error while polling certificate status: ", "certificate ", "timeout ("],
      ∃ rest, message = start ++ rest := by
  have late : ∃ rest, pollingFailure?.timeout p = "timeout (" ++ rest :=
    ⟨_, String.append_assoc ..⟩
  unfold pollingFailure? at failed
  split at failed
  · cases failed
    exact ⟨_, by simp, _, rfl⟩
  · split at failed
    · cases failed
    · split at failed
      · cases failed
        exact ⟨"certificate ", by simp, _, by simp only [String.append_assoc]; rfl⟩
      · cases failed
        exact ⟨_, by simp, late⟩
  · cases failed
    exact ⟨_, by simp, late⟩

theorem error_of_bundle {d : Download} {e : Error} (h : bundle d = .error e) :
    ∃ reason, e = .certificate reason := by
  have undecoded : leaf d.certificate = .error e := by
    unfold bundle at h
    cases decoded : leaf d.certificate with
    | error e' =>
      rw [decoded] at h
      cases h
      rfl
    | ok bytes =>
      rw [decoded] at h
      cases h
  unfold leaf at undecoded
  split at undecoded
  · cases undecoded
    exact ⟨_, rfl⟩
  · split at undecoded
    · cases undecoded
      exact ⟨_, rfl⟩
    · split at undecoded
      · cases undecoded
      · cases undecoded
        exact ⟨_, rfl⟩

/-- Only decoding and placing have such messages. -/
theorem stage_of_configuration {s : Setup} {csr : List UInt8} {a : Replies} {stage : Stage}
    {message : String} (failed : a.failure? s csr stage = some message)
    (begins : "configuration error: ".toList <+: message.toList) :
    stage = .decoding ∨ stage = .placing := by
  cases stage with
  | decoding => exact .inl rfl
  | placing => exact .inr rfl
  | creating =>
    obtain ⟨answer, -, same⟩ := List.exists_of_findSome?_eq_some failed
    obtain ⟨e, -, rfl⟩ := Option.map_eq_some_iff.mp same
    exact absurd begins (unlike_configuration (by decide) (by decide))
  | provisioning =>
    obtain ⟨c, -, failed⟩ := Option.bind_eq_some_iff.mp failed
    obtain ⟨rest, rfl⟩ := start_of_provisioningFailure failed
    exact absurd begins (unlike_configuration (by decide) (by decide))
  | validating =>
    obtain ⟨c, -, failed⟩ := Option.bind_eq_some_iff.mp failed
    obtain ⟨-, failed⟩ := Option.ite_none_right_eq_some.mp failed
    obtain ⟨-, failed⟩ := Option.ite_none_left_eq_some.mp failed
    cases failed
    exact absurd begins (unlike_configuration (by decide) (by decide))
  | polling =>
    obtain ⟨-, failed⟩ := Option.ite_none_left_eq_some.mp failed
    obtain ⟨c, -, failed⟩ := Option.bind_eq_some_iff.mp failed
    obtain ⟨start, listed, rest, rfl⟩ := start_of_pollingFailure failed
    simp only [List.mem_cons, List.not_mem_nil, or_false] at listed
    obtain rfl | rfl | rfl := listed <;>
      exact absurd begins (unlike_configuration (by decide) (by decide))
  | cleaning =>
    obtain ⟨-, failed⟩ := Option.ite_none_left_eq_some.mp failed
    obtain ⟨c, -, failed⟩ := Option.bind_eq_some_iff.mp failed
    obtain ⟨p, -, same⟩ := List.exists_of_findSome?_eq_some failed
    obtain ⟨e, -, rfl⟩ := Option.map_eq_some_iff.mp same
    rw [String.append_assoc, String.append_assoc] at begins
    exact absurd begins (unlike_configuration (by decide) (by decide))
  | downloading =>
    obtain ⟨answer, -, same⟩ := List.exists_of_findSome?_eq_some failed
    obtain ⟨e, -, rfl⟩ := Option.map_eq_some_iff.mp same
    exact absurd begins (unlike_configuration (by decide) (by decide))
  | encoding =>
    obtain ⟨answer, -, same⟩ := List.exists_of_findSome?_eq_some failed
    obtain ⟨d, -, same⟩ := Option.bind_eq_some_iff.mp same
    obtain ⟨e, unbundled, rfl⟩ := Option.map_eq_some_iff.mp same
    obtain ⟨reason, rfl⟩ := error_of_bundle (error?_eq_some.mp unbundled)
    exact absurd begins (unlike_configuration (by decide) (by decide))

/-! ## The answer -/

/-- The request is at fault: it cannot be read, or one of its names was not placed. -/
def Misconfigured (csr : List UInt8) (t : Transcript) : Prop :=
  (∃ e, SigningRequest.parse csr = .error e) ∨
    ∃ host e, ⟨.call (.place host), .error e⟩ ∈ t

theorem refusal?_ne_none {placed : List (String × Except Dns.Error Unit)} {host : String}
    {e : Dns.Error} (refused : (host, .error e) ∈ placed) : refusal? placed ≠ none := by
  intro none_refused
  have accepted := List.findSome?_eq_none_iff.mp none_refused _ refused
  cases accepted

theorem misconfigured_iff {s : Setup} {csr : List UInt8} :
    Misconfigured csr t ↔ (replies t).failure? s csr .decoding ≠ none ∨
      (replies t).failure? s csr .placing ≠ none := by
  refine or_congr ?_ ?_
  · rw [Replies.failure?]
    cases SigningRequest.parse csr <;> simp
  · constructor
    · rintro ⟨host, e, refused⟩
      exact refusal?_ne_none (mem_placings.mpr refused)
    · intro some_refused
      obtain ⟨message, failed⟩ := Option.ne_none_iff_exists'.mp some_refused
      obtain ⟨⟨host, answer⟩, asked, same⟩ := List.exists_of_findSome?_eq_some failed
      obtain ⟨e, refused, -⟩ := Option.map_eq_some_iff.mp same
      cases error?_eq_some.mp refused
      exact ⟨host, e, mem_placings.mp asked⟩

/-- How the answers decide about a response. -/
structure FirstFailureDecides (s : Setup) (csr : List UInt8) (t : Transcript)
    (response : Response) : Prop where
  error : response.error = (replies t).firstFailure s csr
  /-- The names are placed in the order of the request, up to the first one that is not. -/
  inTurn : ∀ r, SigningRequest.parse csr = .ok r →
    (replies t).placings.map (·.1) <+: r.names ∧
      ((replies t).failure? s csr .placing = none → (replies t).placings.map (·.1) = r.names)
  records : (replies t).RecordsInTurn
  /-- The domains of the records are in byte order. -/
  byDomain : ∀ c, (replies t).created? = some c →
    ((required c).map (·.1)).Pairwise fun a b => Utf8.encode a < Utf8.encode b
  noError : response.error = none ↔ ∀ stage, (replies t).failure? s csr stage = none
  complete : response.error = none → response.bundle ≠ none ∧ response.raw ≠ none
  empty : response.error ≠ none → response.bundle = none ∧ response.raw = none
  misconfigured : (∃ message, response.error = some message ∧
      "configuration error: ".toList <+: message.toList) ↔ Misconfigured csr t
  /-- Nothing but the placing of names was asked for. -/
  untouched : Misconfigured csr t → ∀ e ∈ t, e.request.places

theorem firstFailure_eq_none {s : Setup} {csr : List UInt8} {a : Replies} :
    a.firstFailure s csr = none ↔ ∀ stage, a.failure? s csr stage = none := by
  rw [Replies.firstFailure, List.findSome?_eq_none_iff]
  refine ⟨fun all stage => all stage ?_, fun all stage _ => all stage⟩
  cases stage <;> decide

theorem begins_configurationError (message : String) :
    "configuration error: ".toList <+: (configurationError message).toList := by
  unfold configurationError
  rw [String.toList_append]
  exact List.prefix_append _ _

/-- A failure in one of the first two stages is the first one, and says so. -/
theorem firstFailure_of_misconfigured {s : Setup} {csr : List UInt8} (h : Misconfigured csr t) :
    ∃ message, (replies t).firstFailure s csr = some message ∧
      "configuration error: ".toList <+: message.toList := by
  rw [Replies.firstFailure, Stage.inOrder, List.findSome?_cons, List.findSome?_cons]
  cases decoding : (replies t).failure? s csr .decoding with
  | some message =>
    obtain ⟨e, -, rfl⟩ := Option.map_eq_some_iff.mp decoding
    exact ⟨_, rfl, begins_configurationError _⟩
  | none =>
    cases placing : (replies t).failure? s csr .placing with
    | some message =>
      obtain ⟨p, -, same⟩ := List.exists_of_findSome?_eq_some placing
      obtain ⟨e, -, rfl⟩ := Option.map_eq_some_iff.mp same
      exact ⟨_, rfl, begins_configurationError _⟩
    | none =>
      obtain failed | failed := misconfigured_iff.mp h
      · exact absurd decoding failed
      · exact absurd placing failed

theorem misconfigured_of_firstFailure {s : Setup} {csr : List UInt8} {message : String}
    (failed : (replies t).firstFailure s csr = some message)
    (begins : "configuration error: ".toList <+: message.toList) : Misconfigured csr t := by
  obtain ⟨stage, -, failed⟩ := List.exists_of_findSome?_eq_some failed
  refine (misconfigured_iff (s := s)).mpr ?_
  obtain rfl | rfl := stage_of_configuration failed begins
  · exact .inl (by simp [failed])
  · exact .inr (by simp [failed])

theorem recordsInTurn_of_course {s : Setup} {csr : List UInt8} {result : Except String Issued}
    (h : Course s csr t result) : (replies t).RecordsInTurn := by
  cases parsed : SigningRequest.parse csr with
  | error e =>
    obtain ⟨rfl, -⟩ := course_malformed h parsed
    exact nofun
  | ok r =>
    obtain ⟨placed, a, whole, -, -, -, records, -⟩ := replies_of_course h parsed
    rw [whole]
    exact records

theorem places_of_misconfigured {s : Setup} {csr : List UInt8} {result : Except String Issued}
    (h : Course s csr t result) (fault : Misconfigured csr t) : ∀ e ∈ t, e.request.places := by
  cases parsed : SigningRequest.parse csr with
  | error e =>
    obtain ⟨rfl, -⟩ := course_malformed h parsed
    simp
  | ok r =>
    obtain ⟨placed, a, whole, -, -, quiet, -⟩ := replies_of_course h parsed
    obtain ⟨e, malformed⟩ | ⟨host, e, refused⟩ := fault
    · cases parsed.symm.trans malformed
    · have asked := mem_placings.mpr refused
      rw [whole] at asked
      exact quiet (refusal?_ne_none asked)

/-- Whatever the services answer: the error of a response is that of the first stage that
failed. -/
theorem first_failure_decides {s : Setup} {csr : List UInt8} {response : Response}
    (h : Runs (enroll s csr) t response) : FirstFailureDecides s csr t response := by
  obtain ⟨result, run, rfl⟩ := runs_map.mp h
  have course := course_of_runs run
  have error : (Response.ofResult result).error = (replies t).firstFailure s csr := by
    rw [← error_of_course course]
    cases result <;> rfl
  exact {
    error := error
    inTurn := fun r parsed => by
      obtain ⟨placed, a, whole, inTurn, all, -⟩ := replies_of_course course parsed
      rw [whole]
      exact ⟨inTurn, all⟩
    records := recordsInTurn_of_course course
    byDomain := fun c _ => by
      unfold required
      split
      · exact challenges_byDomain c
      · exact .nil
    noError := by rw [error, firstFailure_eq_none]
    complete := fun noError => by
      cases result with
      | ok c => exact ⟨nofun, nofun⟩
      | error e => cases noError
    empty := fun failed => by
      cases result with
      | ok c => exact absurd rfl failed
      | error e => exact ⟨rfl, rfl⟩
    misconfigured := by
      rw [error]
      exact ⟨fun ⟨_, failed, begins⟩ => misconfigured_of_firstFailure failed begins,
        firstFailure_of_misconfigured⟩
    untouched := places_of_misconfigured course }

/-- Two creations are refused, and so is the deletion of the record that was created: the error
is that of the first creation that was refused. -/
theorem first_failure_decides_rollback : ∃ t response,
    Runs (enroll { policy := .default, cache := ⟨1000⟩ } SigningRequest.oneDomain) t response ∧
      deletions t = ["x.a.org"] ∧
      response.error = some ("error while registering dns records 'x.b.org -> ca.net' " ++
        "for b.org: zone store error: refused") := by
  obtain ⟨⟨pem, _⟩, parsed, rfl⟩ := SigningRequest.parse_oneDomain
  have running : Runs (run { policy := .default, cache := ⟨1000⟩ } ⟨pem, ["a.org"]⟩).run
      [⟨.call (.create ["a.org"] pem 90), .ok threeChallenges⟩,
        ⟨.call (.createRecord "x.a.org" "ca.net"), .ok ()⟩,
        ⟨.call (.createRecord "x.b.org" "ca.net"), .error (.store "refused")⟩,
        ⟨.call (.createRecord "x.c.org" "ca.net"), .error (.store "full")⟩,
        ⟨.call (.deleteRecord "x.a.org"), .error (.store "refused")⟩] (.error _) :=
    .ask _ (.ask _ (.ask _ (.ask _ (.ask _ (.done _)))))
  have miss : found (.ofNames ["a.org"]) (.ok none) = none := rfl
  have issuing : Runs (issueAnew { policy := .default, cache := ⟨1000⟩ } ⟨pem, ["a.org"]⟩
      (.ofNames ["a.org"])) _ _ :=
    runs_bind.mpr ⟨_, [], _, rfl, running, .done _⟩
  have enrolling : Runs (enroll _ SigningRequest.oneDomain) _ _ :=
    runs_map.mpr ⟨_, runs_issue_of_anew parsed (runs_placeAll ["a.org"]) miss issuing, rfl⟩
  refine ⟨_, _, enrolling, rfl, ?_⟩
  rw [(first_failure_decides enrolling).error]
  simp only [Replies.firstFailure, Stage.inOrder, List.findSome?_cons, Replies.failure?, parsed]
  rfl

end CertEnrollment.Enrollment
