import CertEnrollment.Proofs.Enrollment.Stages
import CertEnrollment.Proofs.Text.ByteOrder

/-!
# The account of validation records

A run tries to create one record for each challenge with a host and a target, in the
order of the domains. It deletes exactly what it has created, once each and in the same
order, when a record was missing or the certificate was polled for. It deletes nothing
when all records stood and the challenges were not met.
-/
namespace CertEnrollment.Enrollment
open Authority Cache Data Interaction

/-- A change of records that was tried, and whether it was made. -/
inductive RecordChange where
  | creation (host target : String) (made : Bool)
  | deletion (host : String) (made : Bool)
  deriving DecidableEq, Repr

def RecordChange.isCreation : RecordChange → Bool
  | creation _ _ _ => true
  | deletion _ _ => false

def Event.recordChange? : Event Ask Ask.Answer → Option RecordChange
  | ⟨.call (.createRecord host target), answer⟩ => some (.creation host target answer.toBool)
  | ⟨.call (.deleteRecord host), answer⟩ => some (.deletion host answer.toBool)
  | _ => none

def recordChanges (t : Transcript) : List RecordChange := t.filterMap Event.recordChange?

/-- Host and target of every creation that was tried. -/
def creations (t : Transcript) : List (String × String) :=
  (recordChanges t).filterMap fun
    | .creation host target _ => some (host, target)
    | .deletion _ _ => none

/-- The host of every creation that was made. -/
def provisioned (t : Transcript) : List String :=
  (recordChanges t).filterMap fun
    | .creation host _ true => some host
    | _ => none

/-- The host of every deletion that was tried. -/
def deletions (t : Transcript) : List String :=
  (recordChanges t).filterMap fun
    | .deletion host _ => some host
    | .creation _ _ _ => none

variable {t t₁ t₂ : Transcript}

@[simp] theorem recordChanges_nil : recordChanges [] = [] := rfl

@[simp] theorem recordChanges_append :
    recordChanges (t₁ ++ t₂) = recordChanges t₁ ++ recordChanges t₂ :=
  List.filterMap_append

@[simp] theorem recordChanges_createRecord {host target : String}
    {answer : Except Dns.Error Unit} :
    recordChanges (⟨.call (.createRecord host target), answer⟩ :: t) =
      .creation host target answer.toBool :: recordChanges t :=
  rfl

@[simp] theorem recordChanges_deleteRecord {host : String} {answer : Except Dns.Error Unit} :
    recordChanges (⟨.call (.deleteRecord host), answer⟩ :: t) =
      .deletion host answer.toBool :: recordChanges t :=
  rfl

@[simp] theorem creations_append : creations (t₁ ++ t₂) = creations t₁ ++ creations t₂ := by
  simp [creations]

@[simp] theorem provisioned_append :
    provisioned (t₁ ++ t₂) = provisioned t₁ ++ provisioned t₂ := by
  simp [provisioned]

@[simp] theorem deletions_append : deletions (t₁ ++ t₂) = deletions t₁ ++ deletions t₂ := by
  simp [deletions]

/-- The request changes no record. -/
def Ask.keepsRecords : Ask → Prop
  | .call (.createRecord _ _) => False
  | .call (.deleteRecord _) => False
  | _ => True

theorem recordChanges_eq_nil (h : ∀ e ∈ t, e.request.keepsRecords) : recordChanges t = [] := by
  refine List.filterMap_eq_nil_iff.mpr fun e he => ?_
  have kept := h e he
  revert kept
  unfold Event.recordChange?
  split <;> simp [Ask.keepsRecords]

theorem Ask.polls.keepsRecords {q : Ask} {id : String} (h : q.polls id) : q.keepsRecords := by
  cases q with
  | call c =>
    cases h
    trivial
  | _ => trivial

/-! ## Creating and deleting -/

/-- One turn for each domain: its record is tried if it has one, and it counts as failed
unless the record was made. -/
theorem runs_createRecords {ds : List (String × DomainValidation)} {records : List Provisioned}
    {failures : List String} (h : Runs (createRecords ds) t (records, failures)) :
    creations t = ds.filterMap (·.2.cname?) ∧ provisioned t = records.map (·.host) ∧
      (failures = [] ↔ (∀ d ∈ ds, d.2.cname? ≠ none) ∧
        ∀ host target, .creation host target false ∉ recordChanges t) := by
  induction ds generalizing t records failures with
  | nil =>
    obtain ⟨rfl, same⟩ := runs_done.mp h
    cases same
    simp [creations, provisioned]
  | cons d ds ih =>
    obtain ⟨domain, v⟩ := d
    rw [createRecords] at h
    cases challenge : v.cname? with
    | none =>
      rw [challenge] at h
      obtain ⟨t₁, t₂, ⟨records', failures'⟩, rfl, others, rest⟩ := runs_bind.mp h
      obtain ⟨rfl, same⟩ := runs_done.mp rest
      cases same
      obtain ⟨tried, made, -⟩ := ih others
      simp [challenge, tried, made]
    | some pair =>
      obtain ⟨host, target⟩ := pair
      rw [challenge] at h
      obtain ⟨t₁, t₂, answer, rfl, asked, rest⟩ := runs_bind.mp h
      obtain rfl := runs_make.mp asked
      obtain ⟨t₃, t₄, ⟨records', failures'⟩, rfl, others, ending⟩ := runs_bind.mp rest
      obtain ⟨tried, made, failed⟩ := ih others
      cases answer with
      | ok done =>
        obtain ⟨rfl, same⟩ := runs_done.mp ending
        cases same
        refine ⟨?_, ?_, ?_⟩
        · simp [creations, challenge, ← tried]
        · simp [provisioned, Except.toBool, ← made]
        · simp [challenge, failed, Except.toBool]
      | error e =>
        obtain ⟨rfl, same⟩ := runs_done.mp ending
        cases same
        refine ⟨?_, ?_, ?_⟩
        · simp [creations, challenge, ← tried]
        · simp [provisioned, Except.toBool, ← made]
        · have refused : RecordChange.creation host target false ∈
              recordChanges ([⟨.call (.createRecord host target), .error e⟩] ++ (t₃ ++ [])) := by
            simp [Except.toBool]
          exact iff_of_false (List.cons_ne_nil _ _) fun all => all.2 host target refused

/-- One turn for each record. -/
theorem runs_deleteRecords {records : List Provisioned} {failures : List String}
    (h : Runs (deleteRecords records) t failures) : deletions t = records.map (·.host) := by
  induction records generalizing t failures with
  | nil =>
    obtain ⟨rfl, -⟩ := runs_done.mp h
    rfl
  | cons r records ih =>
    rw [deleteRecords] at h
    obtain ⟨t₁, t₂, answer, rfl, asked, rest⟩ := runs_bind.mp h
    obtain rfl := runs_make.mp asked
    obtain ⟨t₃, t₄, failures', rfl, others, ending⟩ := runs_bind.mp rest
    have silent : t₄ = [] := by
      cases answer <;> exact (runs_done.mp ending).1
    have tried := ih others
    simp [silent, deletions, ← tried]

/-! ## What is asked for -/

def Ask.creates (q : Ask) : Prop := ∃ host target, q = .call (.createRecord host target)

def Ask.deletes (q : Ask) : Prop := ∃ host, q = .call (.deleteRecord host)

theorem asks_createRecords (ds : List (String × DomainValidation)) :
    (createRecords ds).Asks Ask.creates := by
  induction ds with
  | nil => trivial
  | cons d ds ih =>
    rw [createRecords]
    split
    · exact ih.bind fun _ => trivial
    · refine Asks.bind (asks_call.mpr ⟨_, _, rfl⟩) fun answer => ih.bind fun _ => ?_
      cases answer <;> trivial

theorem asks_deleteRecords (records : List Provisioned) :
    (deleteRecords records).Asks Ask.deletes := by
  induction records with
  | nil => trivial
  | cons r records ih =>
    rw [deleteRecords]
    refine Asks.bind (asks_call.mpr ⟨_, rfl⟩) fun answer => ih.bind fun _ => ?_
    cases answer <;> trivial

/-- The transcripts of creations alone. -/
theorem deletions_eq_nil (h : ∀ e ∈ t, e.request.creates) :
    deletions t = [] ∧ ∀ c ∈ recordChanges t, c.isCreation = true := by
  induction t with
  | nil => simp [deletions]
  | cons e t ih =>
    obtain ⟨first, others⟩ := List.forall_mem_cons.mp h
    obtain ⟨request, answer⟩ := e
    obtain ⟨host, target, rfl⟩ := first
    simpa [deletions, RecordChange.isCreation] using ih others

/-- The transcripts of deletions alone. -/
theorem creations_eq_nil (h : ∀ e ∈ t, e.request.deletes) :
    creations t = [] ∧ provisioned t = [] ∧ ∀ c ∈ recordChanges t, c.isCreation = false := by
  induction t with
  | nil => simp [creations, provisioned]
  | cons e t ih =>
    obtain ⟨first, others⟩ := List.forall_mem_cons.mp h
    obtain ⟨request, answer⟩ := e
    obtain ⟨host, rfl⟩ := first
    simpa [creations, provisioned, RecordChange.isCreation] using ih others

/-! ## Provisioning -/

/-- Every challenge names a record, and no creation was refused. -/
def Complete (c : Certificate) (t : Transcript) : Prop :=
  (∀ d ∈ c.challenges, d.2.cname? ≠ none) ∧
    ∀ host target, .creation host target false ∉ recordChanges t

/-- Nothing is created any more once something was deleted. -/
def CreationsFirst (t : Transcript) : Prop :=
  ∃ made undone, recordChanges t = made ++ undone ∧ (∀ c ∈ made, c.isCreation = true) ∧
    ∀ c ∈ undone, c.isCreation = false

theorem runs_provision {c : Certificate} {r : Except String (List Provisioned)}
    (h : Runs (provision c).run t r) :
    creations t = c.challenges.filterMap (·.2.cname?) ∧
      ((∃ records, r = .ok records ∧ Complete c t ∧ deletions t = [] ∧
          provisioned t = records.map (·.host) ∧ ∀ c ∈ recordChanges t, c.isCreation = true) ∨
        (∃ e, r = .error e ∧ ¬ Complete c t ∧ deletions t = provisioned t ∧
          CreationsFirst t)) := by
  obtain ⟨t₁, t₂, ⟨records, failures⟩, rfl, creating, rest⟩ := runs_bind.mp h
  obtain ⟨tried, made, failed⟩ := runs_createRecords creating
  obtain ⟨undeleted, kinds⟩ := deletions_eq_nil (creating.asks (asks_createRecords _))
  cases failures with
  | nil =>
    obtain ⟨rfl, rfl⟩ := runs_done.mp rest
    rw [List.append_nil]
    exact ⟨tried, .inl ⟨records, rfl, failed.mp rfl, undeleted, made, kinds⟩⟩
  | cons first more =>
    obtain ⟨t₃, t₄, failures', rfl, deleting, ending⟩ := runs_bind.mp rest
    obtain ⟨rfl, rfl⟩ := runs_done.mp ending
    rw [List.append_nil]
    obtain ⟨uncreated, unmade, undoing⟩ :=
      creations_eq_nil (deleting.asks (asks_deleteRecords _))
    refine ⟨by simp [tried, uncreated], .inr ⟨first, rfl, ?_, ?_,
      ⟨_, _, recordChanges_append, kinds, undoing⟩⟩⟩
    · rintro ⟨named, granted⟩
      refine List.cons_ne_nil first more (failed.mpr ⟨named, fun host target refused => ?_⟩)
      exact granted host target (by simp [refused])
    · simp [undeleted, unmade, made, runs_deleteRecords deleting]

theorem asks_provision (c : Certificate) :
    (provision c).run.Asks fun q => q.creates ∨ q.deletes := by
  refine Asks.bind ((asks_createRecords _).imp fun _ => .inl) fun (records, failures) => ?_
  cases failures with
  | nil => trivial
  | cons first more =>
    exact ((asks_deleteRecords records).imp fun _ => .inr).bind fun _ => trivial

theorem runs_cleanup {records : List Provisioned} {r : Except String Unit}
    (h : Runs (cleanup records).run t r) :
    deletions t = records.map (·.host) ∧ creations t = [] ∧ provisioned t = [] ∧
      ∀ c ∈ recordChanges t, c.isCreation = false := by
  obtain ⟨t₁, t₂, failures, rfl, deleting, rest⟩ := runs_bind.mp h
  obtain ⟨rfl, -⟩ := runs_done.mp rest
  rw [List.append_nil]
  exact ⟨runs_deleteRecords deleting, creations_eq_nil (deleting.asks (asks_deleteRecords _))⟩

/-! ## The account -/

/-- The clock was read, which only polling does. -/
def Polled (t : Transcript) : Prop := ∃ e ∈ t, e.request = .now

/-- A record that has to stand could not be created. -/
def NotProvisioned (c : Certificate) (t : Transcript) : Prop :=
  c.status.needsValidation = true ∧ ¬ Complete c t

/-- All records stood, but the authority never found the challenges met. -/
def Unverified (c : Certificate) (t : Transcript) : Prop :=
  c.status.needsValidation = true ∧ Complete c t ∧ ∀ e ∈ t, Event.isValidation e = false

/-- How a run accounts for the records of a certificate. -/
structure RecordsSettled (c : Certificate) (t : Transcript) (result : Except String Issued) :
    Prop where
  byDomain : (c.challenges.map (·.1)).Pairwise fun a b => Utf8.encode a < Utf8.encode b
  tried : creations t =
    if c.status.needsValidation then c.challenges.filterMap (·.2.cname?) else []
  creationsFirst : CreationsFirst t
  undone : NotProvisioned c t ∨ Polled t → deletions t = provisioned t
  kept : Unverified c t → deletions t = [] ∧ ∃ reason, result = .error (unmet reason)
  ended : NotProvisioned c t ∨ Unverified c t ∨ Polled t

/-- A preparation that succeeds has created every record that has to stand, has deleted
none, and has seen the challenges met. -/
theorem runs_prepare_ok {s : Setup} {c : Certificate} {records : List Provisioned}
    (h : Runs (prepare s c).run t (.ok records)) :
    creations t = (if c.status.needsValidation then c.challenges.filterMap (·.2.cname?) else []) ∧
      provisioned t = records.map (·.host) ∧ deletions t = [] ∧
      (∀ c ∈ recordChanges t, c.isCreation = true) ∧
      (c.status.needsValidation = true → Complete c t ∧ ∃ e ∈ t, Event.isValidation e = true) := by
  cases needed : c.status.needsValidation with
  | false =>
    obtain ⟨rfl, same⟩ := runs_prepare_of_not_needed h needed
    cases same
    simp [creations, provisioned, deletions]
  | true =>
    obtain ⟨e, -, absurd⟩ | ⟨t₁, t₂, records', rfl, provisioning, rest⟩ := runs_prepare h needed
    · cases absurd
    obtain ⟨e, -, absurd⟩ | ⟨checks, same⟩ := rest
    · cases absurd
    cases same
    obtain ⟨tried, ⟨_, same, complete, undeleted, made, kinds⟩ | ⟨e, absurd, -⟩⟩ :=
      runs_provision provisioning
    · cases same
      obtain ⟨requests, ⟨-, e, he, met⟩ | ⟨⟨reason, absurd⟩, -⟩⟩ := runs_validate checks
      · have quiet : recordChanges t₂ = [] :=
          recordChanges_eq_nil fun e he => requests e he ▸ trivial
        refine ⟨?_, ?_, ?_, ?_, fun _ => ⟨⟨complete.1, ?_⟩, e, by simp [he], met⟩⟩
        · simpa [creations, quiet] using tried
        · simpa [provisioned, quiet] using made
        · simpa [deletions, quiet] using undeleted
        · simpa [quiet] using kinds
        · simpa [quiet] using complete.2
      · cases absurd
    · cases absurd

theorem asks_deliver (id : String) : (deliver id).run.Asks (· = .call (.download id)) :=
  Asks.run_bind (asks_orFail (asks_call.mpr rfl)) fun _ => trivial

theorem recordChanges_creation {s : Setup} {r : SigningRequest}
    {answer : Except Authority.Error Certificate} :
    recordChanges (⟨.call (r.creation s), answer⟩ :: t) = recordChanges t :=
  rfl

theorem challenges_byDomain (c : Certificate) :
    (c.challenges.map (·.1)).Pairwise fun a b => Utf8.encode a < Utf8.encode b := by
  rw [List.pairwise_map, Certificate.challenges]
  cases c.validation with
  | none => exact .nil
  | some v => exact v.otherMethods.increasing.imp Utf8.precedes_iff_encode_lt.mp

theorem isValidation_eq_false {e : Event Ask Ask.Answer}
    (h : e.request.creates ∨ e.request.deletes) : Event.isValidation e = false := by
  obtain ⟨request, answer⟩ := e
  obtain ⟨host, target, rfl⟩ | ⟨host, rfl⟩ := h <;> rfl

theorem settled_of_notProvisioned {s : Setup} {r : SigningRequest} {c : Certificate} {e : String}
    (needed : c.status.needsValidation = true) (h : Runs (provision c).run t (.error e)) :
    RecordsSettled c (⟨.call (r.creation s), .ok c⟩ :: t) (.error e) := by
  obtain ⟨tried, ⟨_, absurd, -⟩ | ⟨_, -, incomplete, undone, order⟩⟩ := runs_provision h
  · cases absurd
  exact {
    byDomain := challenges_byDomain c
    tried := by rw [if_pos needed]; exact tried
    creationsFirst := order
    undone := fun _ => undone
    kept := fun unverified => absurd unverified.2.1 incomplete
    ended := .inl ⟨needed, incomplete⟩ }

theorem settled_of_notValidated {s : Setup} {r : SigningRequest} {c : Certificate} {e : String}
    {records : List Provisioned} (needed : c.status.needsValidation = true)
    (provisioning : Runs (provision c).run t₁ (.ok records))
    (checks : Runs (validate c.id s.policy.verifyTrials "no details given").run t₂ (.error e)) :
    RecordsSettled c (⟨.call (r.creation s), .ok c⟩ :: (t₁ ++ t₂)) (.error e) := by
  obtain ⟨tried, ⟨_, -, complete, undeleted, -, kinds⟩ | ⟨_, absurd, -⟩⟩ :=
    runs_provision provisioning
  · obtain ⟨requests, ⟨absurd, -⟩ | ⟨⟨reason, message⟩, unmet⟩⟩ := runs_validate checks
    · cases absurd
    cases message
    have records := provisioning.asks (asks_provision c)
    have quiet : recordChanges t₂ = [] :=
      recordChanges_eq_nil fun e he => requests e he ▸ trivial
    have changes :
        recordChanges (⟨.call (r.creation s), .ok c⟩ :: (t₁ ++ t₂)) = recordChanges t₁ := by
      rw [recordChanges_creation, recordChanges_append, quiet, List.append_nil]
    have stands : Complete c (⟨.call (r.creation s), .ok c⟩ :: (t₁ ++ t₂)) := by
      rw [Complete, changes]
      exact complete
    have unpolled : ¬ Polled (⟨.call (r.creation s), .ok c⟩ :: (t₁ ++ t₂)) := by
      rintro ⟨e, he, clock⟩
      rcases List.mem_cons.mp he with rfl | he
      · cases clock
      rcases List.mem_append.mp he with he | he
      · obtain ⟨_, _, same⟩ | ⟨_, same⟩ := records e he <;> cases clock.symm.trans same
      · cases clock.symm.trans (requests e he)
    have unverified : ∀ e ∈ (⟨.call (r.creation s), .ok c⟩ : Event Ask Ask.Answer) :: (t₁ ++ t₂),
        Event.isValidation e = false := by
      intro e he
      rcases List.mem_cons.mp he with rfl | he
      · rfl
      rcases List.mem_append.mp he with he | he
      · exact isValidation_eq_false (records e he)
      · exact unmet e he
    exact {
      byDomain := challenges_byDomain c
      tried := by rw [if_pos needed, creations, changes]; exact tried
      creationsFirst := ⟨_, [], by rw [changes, List.append_nil], kinds, by simp⟩
      undone := by
        rintro (⟨-, incomplete⟩ | polled)
        · exact absurd stands incomplete
        · exact absurd polled unpolled
      kept := fun _ => ⟨by rw [deletions, changes]; exact undeleted, reason, rfl⟩
      ended := .inr (.inl ⟨needed, stands, unverified⟩) }
  · cases absurd

theorem settled_of_polled {s : Setup} {r : SigningRequest} {c : Certificate}
    {records : List Provisioned} {polled cleaned : Except String Unit} {t₃ t₄ : Transcript}
    {result : Except String Issued} (prepared : Runs (prepare s c).run t₁ (.ok records))
    (polling : Runs (poll s c.id).run t₂ polled) (cleaning : Runs (cleanup records).run t₃ cleaned)
    (silent : recordChanges t₄ = []) :
    RecordsSettled c (⟨.call (r.creation s), .ok c⟩ :: (t₁ ++ (t₂ ++ (t₃ ++ t₄)))) result := by
  obtain ⟨tried, made, undeleted, creating, validated⟩ := runs_prepare_ok prepared
  obtain ⟨deleted, uncreated, unmade, deleting⟩ := runs_cleanup cleaning
  obtain ⟨⟨start, rest, rfl⟩, requests⟩ := runs_poll polling
  have quiet : recordChanges (⟨.now, start⟩ :: rest) = [] :=
    recordChanges_eq_nil fun e he => (requests e he).keepsRecords
  have changes : recordChanges (⟨.call (r.creation s), .ok c⟩ ::
      (t₁ ++ (⟨.now, start⟩ :: rest ++ (t₃ ++ t₄)))) = recordChanges t₁ ++ recordChanges t₃ := by
    rw [recordChanges_creation, recordChanges_append, recordChanges_append, recordChanges_append,
      quiet, silent, List.nil_append, List.append_nil]
  rw [creations] at tried uncreated
  rw [provisioned] at made unmade
  rw [deletions] at undeleted deleted
  exact {
    byDomain := challenges_byDomain c
    tried := by rw [creations, changes, List.filterMap_append, tried, uncreated, List.append_nil]
    creationsFirst := ⟨_, _, changes, creating, deleting⟩
    undone := fun _ => by
      rw [deletions, provisioned, changes, List.filterMap_append, List.filterMap_append, undeleted,
        deleted, made, unmade, List.nil_append, List.append_nil]
    kept := by
      rintro ⟨needed, -, unmet⟩
      obtain ⟨-, e, he, met⟩ := validated needed
      have never := unmet e (List.mem_cons_of_mem _ (List.mem_append_left _ he))
      exact absurd met (by simp [never])
    ended := .inr (.inr ⟨⟨.now, start⟩, by simp, rfl⟩) }

/-- All stages account for the records of the certificate that was created. -/
theorem settled_of_stages {s : Setup} {r : SigningRequest} {result : Except String Issued}
    (h : Stages s r t result) :
    (∃ e, t = [⟨.call (r.creation s), .error e⟩]) ∨
      ∃ c rest, t = ⟨.call (r.creation s), .ok c⟩ :: rest ∧ RecordsSettled c t result := by
  cases h with
  | notCreated e => exact .inl ⟨e, rfl⟩
  | notProvisioned needed provisioning =>
    exact .inr ⟨_, _, rfl, settled_of_notProvisioned needed provisioning⟩
  | notValidated needed provisioning checks =>
    exact .inr ⟨_, _, rfl, settled_of_notValidated needed provisioning checks⟩
  | polled prepared polling cleaning ending =>
    refine .inr ⟨_, _, rfl, settled_of_polled prepared polling cleaning ?_⟩
    obtain ⟨_, -, rfl, -⟩ | ⟨_, -, -, rfl, -⟩ | ⟨-, -, delivering⟩ := ending
    · rfl
    · rfl
    · exact recordChanges_eq_nil fun e he => delivering.asks (asks_deliver _) e he ▸ trivial

/-- Only unmet challenges leave a record behind. -/
theorem RecordsSettled.undone_unless_unmet {c : Certificate} {result : Except String Issued}
    (h : RecordsSettled c t result) (met : ∀ details, result ≠ .error (unmet details)) :
    deletions t = provisioned t := by
  rcases h.ended with unprovisioned | unverified | polled
  · exact h.undone (.inl unprovisioned)
  · obtain ⟨-, details, same⟩ := h.kept unverified
    exact absurd same (met details)
  · exact h.undone (.inr polled)

/-- Whatever the answers are: a run either has no certificate created and changes no
record, or it accounts for the records of the certificate that was created. -/
theorem run_settles_records {s : Setup} {r : SigningRequest} {result : Except String Issued}
    (h : Runs (run s r).run t result) :
    (∃ e, t = [⟨.call (r.creation s), .error e⟩]) ∨
      ∃ c rest, t = ⟨.call (r.creation s), .ok c⟩ :: rest ∧ RecordsSettled c t result :=
  settled_of_stages (stages_of_runs h)

/-- A draft with challenges for three domains. -/
def threeChallenges : Certificate where
  id := "7"
  status := .draft
  commonName := none
  additionalDomains := none
  created := none
  expires := none
  validation := some ⟨⟨[("a.org", ⟨some "x.a.org", some "ca.net", none⟩),
    ("b.org", ⟨some "x.b.org", some "ca.net", none⟩),
    ("c.org", ⟨some "x.c.org", some "ca.net", none⟩)], by simp [Increasing, Precedes]; decide⟩⟩

/-- The second creation is refused, so the first and the third record are deleted again,
the third one also after the first deletion was refused. -/
theorem run_settles_records_rollback :
    ∃ t result, Runs (run { policy := .default, cache := ⟨1000⟩ } ⟨"csr", ["a.org"]⟩).run t result ∧
      provisioned t = ["x.a.org", "x.c.org"] ∧ deletions t = provisioned t := by
  have h : Runs (run { policy := .default, cache := ⟨1000⟩ } ⟨"csr", ["a.org"]⟩).run
      [⟨.call (.create ["a.org"] "csr" 90), .ok threeChallenges⟩,
        ⟨.call (.createRecord "x.a.org" "ca.net"), .ok ()⟩,
        ⟨.call (.createRecord "x.b.org" "ca.net"), .error (.store "refused")⟩,
        ⟨.call (.createRecord "x.c.org" "ca.net"), .ok ()⟩,
        ⟨.call (.deleteRecord "x.a.org"), .error (.store "refused")⟩,
        ⟨.call (.deleteRecord "x.c.org"), .ok ()⟩] (.error _) :=
    .ask _ (.ask _ (.ask _ (.ask _ (.ask _ (.ask _ (.done _))))))
  refine ⟨_, _, h, rfl, ?_⟩
  obtain ⟨e, absurd⟩ | ⟨c, rest, same, settled⟩ := run_settles_records h
  · cases absurd
  · cases same
    refine settled.undone (.inl ⟨rfl, fun complete => ?_⟩)
    exact complete.2 "x.b.org" "ca.net" (by decide)

end CertEnrollment.Enrollment
