import CertEnrollment.Proofs.Enrollment.Progress
import CertEnrollment.Proofs.Obedience

/-!
# What the DNS side is asked for

The names of a request are placed before anything else is asked for. Records are created only
for the challenges of the certificate that was created, and only what was created is deleted.
These are rules on the history, and they hold whatever the answers are.
-/
namespace CertEnrollment.Enrollment
open Authority Cache Interaction

/-- A certificate with this challenge was created, and it has to be validated. -/
def Challenged (t : Transcript) (host target : String) : Prop :=
  ∃ names pem days c, ⟨.call (.create names pem days), .ok c⟩ ∈ t ∧
    c.status.needsValidation = true ∧ ∃ d ∈ c.challenges, d.2.cname? = some (host, target)

/-- A record of the host was created for a challenge. -/
def Provided (t : Transcript) (host : String) : Prop :=
  ∃ target, Challenged t host target ∧ ⟨.call (.createRecord host target), .ok ()⟩ ∈ t

/-- When the DNS side may be asked for something. -/
def DnsDue (csr : List UInt8) (t : Transcript) : Ask → Prop
  | .call (.place host) => (∃ r, SigningRequest.parse csr = .ok r ∧ host ∈ r.names) ∧
      ∀ e ∈ t, e.request.places
  | .call (.createRecord host target) => Challenged t host target
  | .call (.deleteRecord host) => Provided t host
  | _ => True

/-- The DNS side has nothing to do with the request. -/
def Ask.sparesDns : Ask → Prop
  | .call (.place _) => False
  | .call (.createRecord _ _) => False
  | .call (.deleteRecord _) => False
  | _ => True

variable {s : Setup} {csr : List UInt8} {r : SigningRequest} {c : Certificate} {t u : Transcript}
  {host target : String}

theorem Challenged.mono (h : Challenged t host target) (later : t ⊆ u) :
    Challenged u host target := by
  obtain ⟨names, pem, days, c, created, challenge⟩ := h
  exact ⟨names, pem, days, c, later created, challenge⟩

theorem Provided.mono (h : Provided t host) (later : t ⊆ u) : Provided u host := by
  obtain ⟨target, challenged, made⟩ := h
  exact ⟨target, challenged.mono later, later made⟩

theorem dnsDue_of_spares {q : Ask} (h : q.sparesDns) : DnsDue csr t q := by
  cases q with
  | call c => cases c <;> first | exact h.elim | trivial
  | _ => trivial

/-- What spares the DNS side is always due, and the history grows. -/
theorem obeys_of_spares {α : Type} {x : Flow α} (h : x.Asks Ask.sparesDns) :
    x.Obeys (DnsDue csr) (fun u _ => t ⊆ u) t := by
  refine (h.obeys fun _ _ _ => dnsDue_of_spares).imp ?_
  rintro _ _ ⟨u, rfl, -⟩
  exact List.subset_append_left t u

theorem asks_validate_spares (id : String) (trials : Nat) (details : String) :
    (validate id trials details).run.Asks Ask.sparesDns :=
  (asks_validate id trials details).imp fun _ same => same ▸ trivial

theorem Ask.polls.sparesDns {q : Ask} {id : String} (h : q.polls id) : q.sparesDns := by
  cases q with
  | call c =>
    cases h
    trivial
  | _ => trivial

theorem asks_poll_spares (s : Setup) (id : String) : (poll s id).run.Asks Ask.sparesDns := by
  rw [poll]
  refine Asks.lift_bind (asks_call.mpr trivial) fun start => ?_
  exact (asks_pollFrom s.policy id start s.looks).imp fun _ => Ask.polls.sparesDns

/-! ## Records -/

theorem dnsDue_createRecords {ds : List (String × DomainValidation)}
    (all : ∀ d ∈ ds, ∀ host target, d.2.cname? = some (host, target) → Challenged t host target) :
    (createRecords ds).Obeys (DnsDue csr)
      (fun u out => t ⊆ u ∧ ∀ p ∈ out.1, Provided u p.host) t := by
  induction ds generalizing t with
  | nil => exact ⟨List.Subset.refl t, by simp⟩
  | cons d ds ih =>
    obtain ⟨domain, v⟩ := d
    obtain ⟨first, others⟩ := List.forall_mem_cons.mp all
    rw [createRecords]
    cases challenge : v.cname? with
    | none => exact (ih others).bind fun u out h => h
    | some pair =>
      obtain ⟨host, target⟩ := pair
      have challenged := first host target challenge
      refine Obeys.bind (Obeys.call challenged) ?_
      rintro _ answer rfl
      have grown : t ⊆ t ++ [⟨.call (.createRecord host target), answer⟩] :=
        List.subset_append_left _ _
      refine (ih fun d hd host target h => (others d hd host target h).mono grown).bind ?_
      rintro u ⟨records, failures⟩ ⟨later, made⟩
      have whole : t ⊆ u := List.Subset.trans grown later
      cases answer with
      | error e => exact ⟨whole, made⟩
      | ok _ =>
        have here : Provided u host := ⟨target, challenged.mono whole, later (by simp)⟩
        exact ⟨whole, List.forall_mem_cons.mpr ⟨here, made⟩⟩

theorem dnsDue_deleteRecords {records : List Provisioned}
    (made : ∀ p ∈ records, Provided t p.host) :
    (deleteRecords records).Obeys (DnsDue csr) (fun _ _ => True) t := by
  induction records generalizing t with
  | nil => trivial
  | cons p records ih =>
    obtain ⟨first, others⟩ := List.forall_mem_cons.mp made
    rw [deleteRecords]
    refine Obeys.bind (Obeys.call first) ?_
    rintro _ answer rfl
    refine (ih fun p hp => (others p hp).mono (List.subset_append_left _ _)).bind fun _ _ _ => ?_
    cases answer <;> trivial

theorem dnsDue_cleanup {records : List Provisioned} (made : ∀ p ∈ records, Provided t p.host) :
    (cleanup records).run.Obeys (DnsDue csr) (fun _ _ => True) t :=
  (dnsDue_deleteRecords made).bind fun _ _ _ => trivial

/-- What provisioning gives was created. -/
theorem dnsDue_provision (all : ∀ d ∈ c.challenges, ∀ host target,
    d.2.cname? = some (host, target) → Challenged t host target) :
    (provision c).run.Obeys (DnsDue csr)
      (fun u result => t ⊆ u ∧ ∀ records, result = .ok records → ∀ p ∈ records, Provided u p.host)
      t := by
  refine (dnsDue_createRecords all).bind ?_
  rintro u ⟨records, failures⟩ ⟨grown, made⟩
  cases failures with
  | nil =>
    refine ⟨grown, ?_⟩
    rintro _ ⟨⟩
    exact made
  | cons first more =>
    refine (dnsDue_deleteRecords made).with_run.bind ?_
    rintro _ _ ⟨-, w, rfl, -⟩
    refine ⟨List.Subset.trans grown (List.subset_append_left u w), ?_⟩
    rintro _ ⟨⟩

/-! ## The enrollment -/

theorem dnsDue_prepare {names : List String} {pem : String} {days : Nat}
    (created : ⟨.call (.create names pem days), .ok c⟩ ∈ t) :
    (prepare s c).run.Obeys (DnsDue csr)
      (fun u result => ∀ records, result = .ok records → ∀ p ∈ records, Provided u p.host) t := by
  rw [prepare]
  split
  · next needed =>
    refine (dnsDue_provision fun d hd host target challenge =>
      ⟨names, pem, days, c, created, needed, d, hd, challenge⟩).run_bind (by rintro _ _ - _ ⟨⟩) ?_
    rintro u records ⟨-, made⟩
    refine (obeys_of_spares (asks_validate_spares _ _ _)).run_bind (by rintro _ _ - _ ⟨⟩) ?_
    intro v _ later
    rw [obeys_pure]
    rintro _ ⟨⟩ p hp
    exact (made records rfl p hp).mono later
  · rw [obeys_pure]
    rintro _ ⟨⟩
    simp

theorem dnsDue_run : (run s r).run.Obeys (DnsDue csr) (fun _ _ => True) t := by
  rw [run]
  have creation : (Call.orFail (Call.create r.names r.pem s.policy.validityDays).make
      "error while creating certificate: " Authority.Error.message).run.Obeys (DnsDue csr)
        (fun u result => ∀ c, result = .ok c →
          ⟨.call (.create r.names r.pem s.policy.validityDays), .ok c⟩ ∈ u) t := by
    refine (Obeys.call trivial).bind ?_
    rintro _ answer rfl c same
    cases answer with
    | error e => cases same
    | ok c' =>
      cases same
      simp
  refine creation.run_bind (fun _ _ _ => trivial) fun u c created => ?_
  refine (dnsDue_prepare (created c rfl)).run_bind (fun _ _ _ => trivial) fun u records made => ?_
  refine (obeys_of_spares (asks_poll_spares s c.id)).lift_bind fun v polled later => ?_
  have made' : ∀ p ∈ records, Provided v p.host := fun p hp => (made records rfl p hp).mono later
  refine (dnsDue_cleanup made').lift_bind fun w cleaned _ => ?_
  cases polled with
  | error e => trivial
  | ok _ =>
    cases cleaned with
    | error e => trivial
    | ok _ =>
      have delivering : (deliver c.id).run.Asks Ask.sparesDns :=
        (asks_deliver c.id).imp fun _ same => same ▸ trivial
      exact (obeys_of_spares delivering).imp fun _ _ _ => trivial

theorem dnsDue_placeAll {hosts : List String} (parsed : SigningRequest.parse csr = .ok r)
    (listed : ∀ host ∈ hosts, host ∈ r.names) (places : ∀ e ∈ t, e.request.places) :
    (placeAll hosts).run.Obeys (DnsDue csr) (fun _ _ => True) t := by
  induction hosts generalizing t with
  | nil => trivial
  | cons host hosts ih =>
    obtain ⟨first, others⟩ := List.forall_mem_cons.mp listed
    rw [placeAll]
    have placing : (Call.orFail (Call.place host).make ""
        fun e => configurationError e.message).run.Obeys (DnsDue csr)
          (fun u _ => ∀ e ∈ u, e.request.places) t := by
      refine (Obeys.call ⟨⟨r, parsed, first⟩, places⟩).bind ?_
      rintro _ answer rfl
      refine List.forall_mem_append.mpr ⟨places, ?_⟩
      simpa using ⟨host, rfl⟩
    exact placing.run_bind (fun _ _ _ => trivial) fun u _ places => ih others places

theorem dnsDue_issueLocked {domains : DomainSet} :
    (issueLocked s r domains).run.Obeys (DnsDue csr) (fun _ _ => True) t := by
  rw [issueLocked_eq]
  refine ⟨trivial, fun answer => ?_⟩
  dsimp only
  cases found domains answer with
  | some c => trivial
  | none =>
    refine dnsDue_run.bind fun u result _ => ?_
    cases result with
    | error e => trivial
    | ok c => exact ⟨trivial, fun _ => trivial⟩

/-- In every enrollment the DNS side is asked for nothing before its time. -/
theorem dnsDue_issue : (issue s csr).run.Obeys (DnsDue csr) (fun _ _ => True) [] := by
  cases parsed : SigningRequest.parse csr with
  | error e =>
    rw [issue_malformed parsed]
    trivial
  | ok r =>
    rw [issue_eq parsed]
    refine (dnsDue_placeAll parsed (fun _ => id) (by simp)).bind fun u placed _ => ?_
    cases placed with
    | error e => trivial
    | ok _ =>
      refine ⟨trivial, fun _ => ?_⟩
      exact dnsDue_issueLocked.bind fun _ _ _ => ⟨trivial, fun _ => trivial⟩

end CertEnrollment.Enrollment
