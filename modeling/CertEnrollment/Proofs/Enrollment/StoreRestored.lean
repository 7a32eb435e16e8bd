import CertEnrollment.Proofs.Dns.Slots
import CertEnrollment.Proofs.Enrollment.Course
import CertEnrollment.Proofs.Enrollment.Requests

/-!
# The zone store after an enrollment

An enrollment gives the zone store back. However it ends, unless the challenges were
checked and not met, every record that it created is deleted again, and with it the CNAME
records that stood in the same slots before. Nothing else changes.
-/
namespace CertEnrollment.Enrollment
open Cache Data Dns Interaction Store

/-! ## Enrollments over a table -/

/-- The router makes the changes of records; nothing else has to do with its site. -/
def Serves (router : Router) (site : Site) (e : Event Ask Ask.Answer) (site' : Site) : Prop :=
  match e with
  | ⟨.call (.createRecord host target), answer⟩ =>
    site.perform (router.createCname host target) = (answer, site')
  | ⟨.call (.deleteRecord host), answer⟩ =>
    site.perform (router.deleteCname host) = (answer, site')
  | _ => site' = site

/-- The router makes the changes of a transcript, one after the other. -/
inductive Served (router : Router) : Site → Transcript → Site → Prop
  | nil (site : Site) : Served router site [] site
  | cons {site site' site'' : Site} {e : Event Ask Ask.Answer} {t : Transcript}
      (first : Serves router site e site') (rest : Served router site' t site'') :
      Served router site (e :: t) site''

variable {router : Router} {site site' : Site} {t t₁ t₂ : Transcript}
  {e : Event Ask Ask.Answer}

theorem served_append :
    Served router site (t₁ ++ t₂) site' ↔
      ∃ mid, Served router site t₁ mid ∧ Served router mid t₂ site' := by
  induction t₁ generalizing site with
  | nil =>
    constructor
    · exact fun h => ⟨site, .nil site, h⟩
    · rintro ⟨mid, first, second⟩
      cases first
      exact second
  | cons e t₁ ih =>
    constructor
    · intro h
      cases h with
      | cons first rest =>
        obtain ⟨mid, others, second⟩ := ih.mp rest
        exact ⟨mid, .cons first others, second⟩
    · rintro ⟨mid, first, second⟩
      cases first with
      | cons first rest => exact .cons first (ih.mpr ⟨mid, rest, second⟩)

/-- A request is a creation, a deletion, or has nothing to do with records. -/
theorem event_cases (e : Event Ask Ask.Answer) :
    (∃ host target answer, e = ⟨.call (.createRecord host target), answer⟩) ∨
      (∃ host answer, e = ⟨.call (.deleteRecord host), answer⟩) ∨ e.request.keepsRecords := by
  obtain ⟨request, answer⟩ := e
  cases request with
  | call c =>
    cases c with
    | createRecord host target => exact .inl ⟨host, target, answer, rfl⟩
    | deleteRecord host => exact .inr (.inl ⟨host, answer, rfl⟩)
    | _ => exact .inr (.inr trivial)
  | _ => exact .inr (.inr trivial)

theorem serves_of_keeps (keeps : e.request.keepsRecords) :
    Serves router site e site' ↔ site' = site := by
  unfold Serves
  split
  · exact absurd keeps id
  · exact absurd keeps id
  · exact Iff.rfl

/-- Whatever the other answers are, every flow can be run over every site. -/
theorem exists_served {α : Type} (router : Router) (other : (q : Ask) → q.Answer) (x : Flow α)
    (site : Site) : ∃ t result site', Runs x t result ∧ Served router site t site' ∧
      ∀ e ∈ t, e.request.keepsRecords → e.answer = other e.request := by
  induction x generalizing site with
  | done result => exact ⟨[], result, site, .done result, .nil site, by simp⟩
  | ask request next ih =>
    have step : ∃ answer site', Serves router site ⟨request, answer⟩ site' ∧
        (request.keepsRecords → answer = other request) := by
      obtain ⟨host, target, _, same⟩ | ⟨host, _, same⟩ | keeps :=
        event_cases ⟨request, other request⟩
      · cases congrArg Event.request same
        exact ⟨_, _, rfl, fun absurd => absurd.elim⟩
      · cases congrArg Event.request same
        exact ⟨_, _, rfl, fun absurd => absurd.elim⟩
      · exact ⟨other request, site, (serves_of_keeps keeps).mpr rfl, fun _ => rfl⟩
    obtain ⟨answer, site₁, first, same⟩ := step
    obtain ⟨t, result, site₂, run, rest, others⟩ := ih answer site₁
    exact ⟨_, result, site₂, .ask answer run, .cons first rest,
      List.forall_mem_cons.mpr ⟨same, others⟩⟩

theorem recordChanges_cons_of_keeps (keeps : e.request.keepsRecords) :
    recordChanges (e :: t) = recordChanges t := by
  have silent : recordChanges [e] = [] := recordChanges_eq_nil (by simpa using keeps)
  rw [← List.singleton_append, recordChanges_append, silent, List.nil_append]

/-- Without changes of records the site stays as it is. -/
theorem Served.quiet (h : Served router site t site') (silent : recordChanges t = []) :
    site' = site := by
  induction h with
  | nil site => rfl
  | @cons site site' site'' e t first rest ih =>
    obtain ⟨host, target, answer, rfl⟩ | ⟨host, answer, rfl⟩ | keeps := event_cases e
    · simp at silent
    · simp at silent
    · rw [recordChanges_cons_of_keeps keeps] at silent
      rw [ih silent, (serves_of_keeps keeps).mp first]

/-! ## Creations and deletions -/

variable {initial : HashTable} {made gone : List String}

/-- Creations are entered into the ledger. -/
theorem Served.of_creations (h : Served router site t site') (inStore : router.InStore)
    (legible : Legible initial) (memory : site.memory.InStore)
    (ledger : Ledger router initial site.table made [])
    (kinds : ∀ c ∈ recordChanges t, c.isCreation = true) :
    site'.memory.InStore ∧ Ledger router initial site'.table (made ++ provisioned t) [] := by
  induction h generalizing made with
  | nil site => exact ⟨memory, by simpa [provisioned] using ledger⟩
  | @cons site site' site'' e t first rest ih =>
    obtain ⟨host, target, answer, rfl⟩ | ⟨host, answer, rfl⟩ | keeps := event_cases e
    · rw [recordChanges_createRecord] at kinds
      obtain ⟨-, others⟩ := List.forall_mem_cons.mp kinds
      obtain ⟨memory', kept, ⟨reason, failed⟩ | ⟨key, field, m, slot, records, done⟩⟩ :=
        Router.perform_createCname inStore memory host target
      · obtain ⟨rfl, rfl⟩ := Prod.mk.inj (failed.symm.trans first)
        simpa [provisioned, Except.toBool] using ih kept ledger others
      · obtain ⟨rfl, rfl⟩ := Prod.mk.inj (done.symm.trans first)
        simpa [provisioned, Except.toBool] using
          ih kept (ledger.create legible slot records target) others
    · simp [RecordChange.isCreation] at kinds
    · obtain rfl := (serves_of_keeps keeps).mp first
      rw [recordChanges_cons_of_keeps keeps] at kinds
      rw [provisioned, recordChanges_cons_of_keeps keeps]
      exact ih memory ledger kinds

/-- Deletions for hosts in the ledger are entered, too. -/
theorem Served.of_deletions (h : Served router site t site') (inStore : router.InStore)
    (memory : site.memory.InStore) (ledger : Ledger router initial site.table made gone)
    (kinds : ∀ c ∈ recordChanges t, c.isCreation = false)
    (mine : ∀ host ∈ deletions t, host ∈ made) :
    Ledger router initial site'.table made (gone ++ deletions t) := by
  induction h generalizing gone with
  | nil site => simpa [deletions] using ledger
  | @cons site site' site'' e t first rest ih =>
    obtain ⟨host, target, answer, rfl⟩ | ⟨host, answer, rfl⟩ | keeps := event_cases e
    · simp [RecordChange.isCreation] at kinds
    · rw [recordChanges_deleteRecord] at kinds
      obtain ⟨-, others⟩ := List.forall_mem_cons.mp kinds
      have split : deletions (⟨.call (.deleteRecord host), answer⟩ :: t) =
          host :: deletions t := rfl
      rw [split] at mine ⊢
      obtain ⟨here, later⟩ := List.forall_mem_cons.mp mine
      obtain ⟨key, field, m, slot, records, cleared⟩ := ledger.delete here
      obtain ⟨memory', kept, done⟩ := Router.perform_deleteCname inStore memory slot records
      obtain ⟨rfl, rfl⟩ := Prod.mk.inj (done.symm.trans first)
      simpa using ih kept cleared others later
    · obtain rfl := (serves_of_keeps keeps).mp first
      rw [recordChanges_cons_of_keeps keeps] at kinds
      rw [deletions, recordChanges_cons_of_keeps keeps] at mine ⊢
      exact ih memory ledger kinds mine

/-! ## The whole enrollment -/

variable {s : Setup} {r : SigningRequest} {csr : List UInt8} {result : Except String Issued}

/-- A run that does not end with unmet challenges has deleted what it has created. -/
theorem run_undoes (h : Runs (run s r).run t result)
    (met : ∀ details, result ≠ .error (unmet details)) :
    CreationsFirst t ∧ deletions t = provisioned t := by
  obtain ⟨e, rfl⟩ | ⟨c, rest, rfl, settled⟩ := settled_of_stages (stages_of_runs h)
  · exact ⟨⟨[], [], rfl, by simp, by simp⟩, rfl⟩
  · exact ⟨settled.creationsFirst, settled.undone_unless_unmet met⟩

/-- Only its run changes records during an enrollment, and it decides how that ends. -/
theorem runs_issue (h : Runs (issue s csr).run t result) :
    recordChanges t = [] ∨
      ∃ r u, Runs (run s r).run u result ∧ recordChanges t = recordChanges u := by
  have quiet : ∀ {hosts placing placed}, Runs (placeAll hosts).run placing placed →
      recordChanges placing = [] := by
    intro hosts placing placed places
    refine recordChanges_eq_nil fun e he => ?_
    obtain ⟨host, same⟩ := places.asks (asks_placeAll hosts) e he
    exact same ▸ trivial
  cases course_of_runs h with
  | malformed malformed => exact .inl rfl
  | refused parsed placing => exact .inl (quiet placing)
  | served parsed placing hit =>
    refine .inl ?_
    rw [recordChanges_append, quiet placing]
    rfl
  | @failed r _ u e _ parsed placing miss running =>
    refine .inr ⟨r, u, running, ?_⟩
    rw [recordChanges_append, quiet placing]
    exact recordChanges_append.trans (List.append_nil _)
  | @issued r _ u c _ parsed placing miss running written =>
    refine .inr ⟨r, u, running, ?_⟩
    rw [recordChanges_append, quiet placing]
    exact recordChanges_append.trans (List.append_nil _)

/-- An enrollment that finds nothing in the cache fails as its run does. -/
theorem runs_issue_of_run (parsed : SigningRequest.parse csr = .ok r)
    (placing : Runs (placeAll r.names).run t₁ (.ok ()))
    {answer : (readAsk (.ofNames r.names)).Answer} (miss : found (.ofNames r.names) answer = none)
    {message : String} (running : Runs (run s r).run t₂ (.error message)) :
    Runs (issue s csr).run (t₁ ++ ⟨.lock (.ofNames r.names), ()⟩ ::
      (⟨readAsk (.ofNames r.names), answer⟩ :: t₂ ++ [⟨.unlock, ()⟩])) (.error message) := by
  refine runs_issue_of_anew parsed placing miss ?_
  exact runs_bind.mpr ⟨t₂, [], .error message, (List.append_nil t₂).symm, running, .done _⟩

/-- The transcript of an enrollment that undoes its changes, at the point where it has
made all of them. -/
theorem split_of_creationsFirst (order : CreationsFirst t) :
    ∃ t₁ t₂, t = t₁ ++ t₂ ∧ (∀ c ∈ recordChanges t₁, c.isCreation = true) ∧
      (∀ c ∈ recordChanges t₂, c.isCreation = false) ∧ deletions t₁ = [] ∧
      provisioned t₂ = [] := by
  obtain ⟨created, deleted, changes, creating, deleting⟩ := order
  obtain ⟨t₁, t₂, rfl, rfl, rfl⟩ := List.filterMap_eq_append_iff.mp changes
  refine ⟨t₁, t₂, rfl, creating, deleting, ?_, ?_⟩
  · refine List.filterMap_eq_nil_iff.mpr fun c hc => ?_
    cases c with
    | creation host target done => rfl
    | deletion host done => cases creating _ hc
  · refine List.filterMap_eq_nil_iff.mpr fun c hc => ?_
    cases c with
    | creation host target done => cases deleting _ hc
    | deletion host done => rfl

/-- The table is as before, except that the slots of some hosts have lost their CNAME
records. A field that has lost all records is absent. -/
structure Restored (router : Router) (hosts : List String) (before after : HashTable) :
    Prop where
  erased : ∀ host ∈ hosts, ∃ key field m, router.slot? host = some (key, field) ∧
    recordsIn before key field = .ok m ∧ recordsIn after key field = .ok (m.erase "cname") ∧
    (after.get? key field = none ↔ (m.erase "cname").isEmpty = true)
  others : ∀ key field, (∀ host ∈ hosts, router.slot? host ≠ some (key, field)) →
    after.get? key field = before.get? key field
  traceless : (∀ host ∈ hosts, ∀ key field m, router.slot? host = some (key, field) →
      recordsIn before key field = .ok m → m.get? "cname" = none) →
    ∀ key field, recordsIn after key field = recordsIn before key field

/-- A ledger with a deletion for every creation. -/
theorem restored_of_ledger {initial table : HashTable} {hosts : List String}
    (ledger : Ledger router initial table hosts hosts) : Restored router hosts initial table := by
  have erased : ∀ host ∈ hosts, ∀ key field, router.slot? host = some (key, field) →
      ∃ m, recordsIn initial key field = .ok m ∧
        recordsIn table key field = .ok (m.erase "cname") ∧
        (table.get? key field = none ↔ (m.erase "cname").isEmpty = true) := by
    intro host hh key field slot
    obtain ⟨m, before, spells, storable⟩ := ledger.cleared host hh key field slot
    refine ⟨m, before, spells.records storable, ?_⟩
    rw [spells]
    split <;> simp [*]
  refine ⟨fun host hh => ?_, ledger.others, fun plain key field => ?_⟩
  · obtain ⟨key, field, slot⟩ := ledger.placed host hh
    obtain ⟨m, rest⟩ := erased host hh key field slot
    exact ⟨key, field, m, slot, rest⟩
  · by_cases touched : ∃ host ∈ hosts, router.slot? host = some (key, field)
    · obtain ⟨host, hh, slot⟩ := touched
      obtain ⟨m, before, after, -⟩ := erased host hh key field slot
      rw [after, before, SortedMap.erase_of_get?_eq_none (plain host hh key field m slot before)]
    · exact recordsIn_congr (ledger.others key field fun host hh slot => touched ⟨host, hh, slot⟩)

/-- However an enrollment ends, except with unmet challenges: of the records that stood in
the zone store, the slots of the hosts that it provisioned lose their CNAME records, and
nothing else changes. -/
theorem issue_restores_store (inStore : router.InStore) (memory : site.memory.InStore)
    (legible : Legible site.table) (h : Runs (issue s csr).run t result)
    (served : Served router site t site') (met : ∀ details, result ≠ .error (unmet details)) :
    Restored router (provisioned t) site.table site'.table := by
  have undone : CreationsFirst t ∧ deletions t = provisioned t := by
    obtain silent | ⟨r, u, running, same⟩ := runs_issue h
    · rw [CreationsFirst, deletions, provisioned, silent]
      exact ⟨⟨[], [], rfl, by simp, by simp⟩, rfl⟩
    · rw [CreationsFirst, deletions, provisioned, same]
      exact run_undoes running met
  obtain ⟨order, deleted⟩ := undone
  obtain ⟨t₁, t₂, rfl, creating, deleting, undeleted, uncreated⟩ := split_of_creationsFirst order
  obtain ⟨mid, first, second⟩ := served_append.mp served
  obtain ⟨memory', ledger⟩ := first.of_creations inStore legible memory (Ledger.start _ _) creating
  rw [deletions_append, provisioned_append, undeleted, uncreated, List.nil_append,
    List.append_nil] at deleted
  rw [List.nil_append] at ledger
  have final := second.of_deletions inStore memory' ledger deleting fun host hh => deleted ▸ hh
  rw [List.nil_append, deleted] at final
  rw [provisioned_append, uncreated, List.append_nil]
  exact restored_of_ledger final

/-- A router with the zone `a.org`, over a table that holds records of another type. -/
def oneZone : Router where
  zones := [Zone.make "a.org" [] none]
  options := Options.empty.withCoredns .default
  defaultKind := .coredns

def addressTable : HashTable :=
  HashTable.empty.set "a.org." "x" "\x7b\"a\":[\x7b\"ip\":\"10.0.0.1\",\"ttl\":300\x7d]\x7d"

theorem legible_addressTable : Legible addressTable :=
  legible_empty.set _ _ (by decide +kernel)

/-- Two actions in a row that succeed. -/
theorem perform_perform {x y : Router.Action Unit} {site : Site}
    (h : (site.perform x).1.isOk = true ∧ ((site.perform x).2.perform y).1.isOk = true) :
    ∃ site₁ site₂, site.perform x = (.ok (), site₁) ∧ site₁.perform y = (.ok (), site₂) := by
  obtain ⟨first, second⟩ := h
  cases here : site.perform x with
  | mk result site₁ =>
    cases there : site₁.perform y with
    | mk result' site₂ =>
      rw [here] at first second
      rw [there] at second
      cases result with
      | error e => cases first
      | ok _ =>
        cases result' with
        | error e => cases second
        | ok _ => exact ⟨site₁, site₂, rfl, there⟩

theorem eq_error {ε α : Type} {x : Except ε α} (h : x.isOk = false) : ∃ e, x = .error e := by
  cases x with
  | error e => exact ⟨e, rfl⟩
  | ok b => cases h

theorem head?_append {s : String} {c : Char} (h : s.toList.head? = some c) (rest : String) :
    (s ++ rest).toList.head? = some c := by
  rw [String.toList_append, List.head?_append, h]
  rfl

/-- A refused creation is not reported as unmet challenges. -/
theorem ne_unmet (rest details : String) :
    "error while registering dns records " ++ rest ≠ unmet details := by
  intro same
  have left : ("error while registering dns records " ++ rest).toList.head? = some 'e' :=
    head?_append (by decide +kernel) rest
  have right : (unmet details).toList.head? = some 'c' := head?_append (by decide +kernel) details
  have absurd : some 'e' = some 'c' := left.symm.trans (same ▸ right)
  cases absurd

/-- The authority names records in three zones, of which only one is served. The record
that was created is deleted again, and the address record stays. -/
theorem issue_restores_store_rollback :
    ∃ t result site', Runs (issue { policy := .default, cache := ⟨1000⟩ }
        SigningRequest.oneDomain).run t result ∧
      Served oneZone ⟨⟨.empty, true⟩, addressTable⟩ t site' ∧ provisioned t = ["x.a.org"] ∧
      Restored oneZone ["x.a.org"] addressTable site'.table := by
  obtain ⟨r, parsed, names⟩ := SigningRequest.parse_oneDomain
  let s : Setup := { policy := .default, cache := ⟨1000⟩ }
  let site : Site := ⟨⟨.empty, true⟩, addressTable⟩
  obtain ⟨site₁, site₂, created, deleted⟩ : ∃ site₁ site₂,
      site.perform (oneZone.createCname "x.a.org" "ca.net") = (.ok (), site₁) ∧
        site₁.perform (oneZone.deleteCname "x.a.org") = (.ok (), site₂) :=
    perform_perform (by decide +kernel)
  obtain ⟨b, unzonedB⟩ : ∃ e, oneZone.verify "x.b.org" = .error e := eq_error (by decide +kernel)
  obtain ⟨c, unzonedC⟩ : ∃ e, oneZone.verify "x.c.org" = .error e := eq_error (by decide +kernel)
  let changes : Transcript := [⟨.call (.createRecord "x.a.org" "ca.net"), .ok ()⟩,
    ⟨.call (.createRecord "x.b.org" "ca.net"), .error b⟩,
    ⟨.call (.createRecord "x.c.org" "ca.net"), .error c⟩,
    ⟨.call (.deleteRecord "x.a.org"), .ok ()⟩]
  have running : Runs (run s r).run
      (⟨.call (.create r.names r.pem 90), .ok threeChallenges⟩ :: changes) (.error _) :=
    .ask _ (.ask _ (.ask _ (.ask _ (.ask _ (.done _)))))
  have placing : Runs (placeAll r.names).run [⟨.call (.place "a.org"), .ok ()⟩] (.ok ()) := by
    rw [names]
    exact .ask _ (.done _)
  let t : Transcript := ⟨.call (.place "a.org"), .ok ()⟩ :: ⟨.lock (.ofNames r.names), ()⟩ ::
    ⟨readAsk (.ofNames r.names), .error "gone"⟩ ::
    ⟨.call (.create r.names r.pem 90), .ok threeChallenges⟩ :: (changes ++ [⟨.unlock, ()⟩])
  have issuing : Runs (issue s SigningRequest.oneDomain).run t (.error _) :=
    runs_issue_of_run parsed placing rfl running
  have served : Served oneZone site t site₂ := by
    refine .cons rfl (.cons rfl (.cons rfl (.cons rfl ?_)))
    refine .cons created (.cons (Router.perform_createCname_of_error site₁ unzonedB) ?_)
    refine .cons (Router.perform_createCname_of_error site₁ unzonedC) (.cons deleted ?_)
    exact .cons rfl (.nil site₂)
  have inStore : oneZone.InStore := ⟨rfl, by decide⟩
  have memory : site.memory.InStore := ⟨rfl, by simp [site]⟩
  refine ⟨t, _, site₂, issuing, served, rfl, ?_⟩
  refine issue_restores_store inStore memory legible_addressTable issuing served ?_
  intro details same
  have start := Except.error.inj same
  simp only [String.append_assoc] at start
  exact ne_unmet _ _ start

end CertEnrollment.Enrollment
