import CertEnrollment.Proofs.Enrollment.Progress
import CertEnrollment.Proofs.Enrollment.Requests
import CertEnrollment.Proofs.Obedience

/-!
# The order of an enrollment

An enrollment has a certificate created, has its challenges checked, looks at its status and
downloads it. When each of these calls may be made is a rule on what was asked before and on
the answers. The rule also says when a certificate may be written to the cache, so that none
is stored or given that was not seen issued and downloaded.
-/
namespace CertEnrollment.Enrollment
open Authority Cache Interaction

/-! ## Calls to the authority -/

def Ask.isAuthority : Ask → Bool
  | .call (.create _ _ _) => true
  | .call (.check _) => true
  | .call (.get _) => true
  | .call (.download _) => true
  | _ => false

/-- The calls to the authority with their answers. -/
def authorityCalls (t : Transcript) : Transcript := t.filter (·.request.isAuthority)

def Ask.isCheck : Ask → Bool
  | .call (.check _) => true
  | _ => false

def Ask.isGet : Ask → Bool
  | .call (.get _) => true
  | _ => false

/-- The last check of challenges with its answer. -/
def lastCheck? (t : Transcript) : Option (Event Ask Ask.Answer) :=
  ((authorityCalls t).filter (·.request.isCheck)).getLast?

/-- The last look at the status with its answer. -/
def lastGet? (t : Transcript) : Option (Event Ask Ask.Answer) :=
  ((authorityCalls t).filter (·.request.isGet)).getLast?

/-- So many checks, then looks at the status, then downloads of a certificate. -/
def sequence (c : Certificate) (checks gets downloads : Nat) : List Ask :=
  List.replicate checks (.call (.check c.id)) ++ List.replicate gets (.call (.get c.id)) ++
    List.replicate downloads (.call (.download c.id))

/-- The authority was asked to create a certificate, made this one, and was then asked for
these checks, looks and downloads of it in this order, and for nothing else. -/
def Calls (c : Certificate) (t : Transcript) (checks gets downloads : Nat) : Prop :=
  ∃ names pem days rest, authorityCalls t = ⟨.call (.create names pem days), .ok c⟩ :: rest ∧
    rest.map (·.request) = sequence c checks gets downloads

/-- The record of every challenge was created, and none was deleted. -/
def Standing (c : Certificate) (t : Transcript) : Prop :=
  Complete c t ∧ creations t = c.challenges.filterMap (·.2.cname?) ∧ deletions t = []

/-- The certificate had not to be validated, or the last check found its challenges met. -/
def Confirmed (c : Certificate) (t : Transcript) : Prop :=
  c.status.needsValidation = false ∨
    ∃ body, lastCheck? t = some ⟨.call (.check c.id), .ok (.validated body)⟩

/-- The last look at the status found the certificate issued. -/
def SeenIssued (c : Certificate) (t : Transcript) : Prop :=
  ∃ c', lastGet? t = some ⟨.call (.get c.id), .ok c'⟩ ∧ c'.status.isIssued = true

/-- Every record that was created was deleted, and no deletion failed. -/
def CleanedUp (t : Transcript) : Prop :=
  deletions t = provisioned t ∧ ∀ host, .deletion host false ∉ recordChanges t

/-- This is the bundle of a certificate that was seen issued and downloaded once. -/
def Obtained (issued : Issued) (t : Transcript) : Prop :=
  ∃ c checks gets d, Calls c t checks gets 1 ∧ SeenIssued c t ∧
    ⟨.call (.download c.id), .ok d⟩ ∈ t ∧ bundle d = .ok issued

/-- The cache gave this, and nothing was asked of the authority. -/
def FromCache (csr : List UInt8) (issued : Issued) (t : Transcript) : Prop :=
  ∃ r answer, SigningRequest.parse csr = .ok r ∧ authorityCalls t = [] ∧
    ⟨readAsk (.ofNames r.names), answer⟩ ∈ t ∧ found (.ofNames r.names) answer = some issued

/-- When a request may be made. -/
def Due (s : Setup) (csr : List UInt8) (t : Transcript) : Ask → Prop
  | .call (.create names pem days) => authorityCalls t = [] ∧
      ∃ r, SigningRequest.parse csr = .ok r ∧ Call.create names pem days = r.creation s
  | .call (.check id) => ∃ c checks, Calls c t checks 0 0 ∧ id = c.id ∧
      c.status.needsValidation = true ∧ Standing c t
  | .call (.get id) => ∃ c checks gets, Calls c t checks gets 0 ∧ id = c.id ∧ Confirmed c t
  | .call (.download id) => ∃ c checks gets, Calls c t checks gets 0 ∧ id = c.id ∧
      SeenIssued c t ∧ CleanedUp t
  | .call (.cache (.write _ text _)) => ∃ issued, Obtained issued t ∧ text = issued.text
  | _ => True

variable {s : Setup} {csr : List UInt8} {r : SigningRequest} {c : Certificate}
  {t u : Transcript} {checks gets : Nat} {e : Event Ask Ask.Answer}

@[simp] theorem authorityCalls_append :
    authorityCalls (t ++ u) = authorityCalls t ++ authorityCalls u :=
  List.filter_append t u

theorem authorityCalls_eq_nil (h : ∀ e ∈ t, e.request.isAuthority = false) :
    authorityCalls t = [] :=
  List.filter_eq_nil_iff.mpr fun e he => by simp [h e he]

/-! ## One more call -/

theorem Calls.snoc {downloads checks' gets' downloads' : Nat} (h : Calls c t checks gets downloads)
    (authority : e.request.isAuthority = true)
    (order : sequence c checks' gets' downloads' = sequence c checks gets downloads ++ [e.request]) :
    Calls c (t ++ [e]) checks' gets' downloads' := by
  obtain ⟨names, pem, days, rest, calls, asked⟩ := h
  refine ⟨names, pem, days, rest ++ [e], ?_, ?_⟩
  · have last : authorityCalls [e] = [e] := List.filter_cons_of_pos authority
    rw [authorityCalls_append, calls, last, List.cons_append]
  · rw [order, List.map_append, asked]
    rfl

theorem Calls.check (h : Calls c t checks 0 0) (answer : Except Authority.Error VerificationOutcome) :
    Calls c (t ++ [⟨.call (.check c.id), answer⟩]) (checks + 1) 0 0 :=
  h.snoc rfl (by simp [sequence, List.replicate_succ'])

theorem Calls.get (h : Calls c t checks gets 0) (answer : Except Authority.Error Certificate) :
    Calls c (t ++ [⟨.call (.get c.id), answer⟩]) checks (gets + 1) 0 :=
  h.snoc rfl (by simp [sequence, List.replicate_succ'])

theorem Calls.download (h : Calls c t checks gets 0) (answer : Except Authority.Error Download) :
    Calls c (t ++ [⟨.call (.download c.id), answer⟩]) checks gets 1 :=
  h.snoc rfl (by simp [sequence])

theorem Calls.frame {downloads : Nat} (h : Calls c t checks gets downloads)
    (same : authorityCalls u = authorityCalls t) : Calls c u checks gets downloads := by
  rwa [Calls, same]

theorem Confirmed.frame (h : Confirmed c t) (same : authorityCalls u = authorityCalls t) :
    Confirmed c u := by
  rwa [Confirmed, lastCheck?, same]

theorem SeenIssued.frame (h : SeenIssued c t) (same : authorityCalls u = authorityCalls t) :
    SeenIssued c u := by
  rwa [SeenIssued, lastGet?, same]

theorem authorityCalls_snoc (h : e.request.isAuthority = false) :
    authorityCalls (t ++ [e]) = authorityCalls t := by
  simp [authorityCalls, h]

theorem recordChanges_snoc (h : e.request.keepsRecords) :
    recordChanges (t ++ [e]) = recordChanges t := by
  have none_there : recordChanges [e] = [] := recordChanges_eq_nil (by simpa using h)
  rw [recordChanges_append, none_there, List.append_nil]

theorem Standing.frame (h : Standing c t) (same : recordChanges u = recordChanges t) :
    Standing c u := by
  rwa [Standing, Complete, creations, deletions, same]

theorem Confirmed.get (h : Confirmed c t) (id : String) (answer : Except Authority.Error Certificate) :
    Confirmed c (t ++ [⟨.call (.get id), answer⟩]) := by
  refine h.imp_right fun ⟨body, last⟩ => ⟨body, ?_⟩
  simpa [lastCheck?, authorityCalls, Ask.isAuthority, Ask.isCheck] using last

theorem SeenIssued.download (h : SeenIssued c t) (id : String)
    (answer : Except Authority.Error Download) :
    SeenIssued c (t ++ [⟨.call (.download id), answer⟩]) := by
  obtain ⟨c', last, issued⟩ := h
  refine ⟨c', ?_, issued⟩
  simpa [lastGet?, authorityCalls, Ask.isAuthority, Ask.isGet] using last

theorem lastCheck?_check (id : String) (answer : Except Authority.Error VerificationOutcome) :
    lastCheck? (t ++ [⟨.call (.check id), answer⟩]) = some ⟨.call (.check id), answer⟩ := by
  simp [lastCheck?, authorityCalls, Ask.isAuthority, Ask.isCheck]

theorem lastGet?_get (id : String) (answer : Except Authority.Error Certificate) :
    lastGet? (t ++ [⟨.call (.get id), answer⟩]) = some ⟨.call (.get id), answer⟩ := by
  simp [lastGet?, authorityCalls, Ask.isAuthority, Ask.isGet]

/-! ## The stages -/

theorem obeys_validate {trials : Nat} {details : String} (calls : Calls c t checks 0 0)
    (needed : c.status.needsValidation = true) (standing : Standing c t) :
    (validate c.id trials details).run.Obeys (Due s csr)
      (fun u result => result = .ok () → (∃ checks, Calls c u checks 0 0) ∧ Confirmed c u) t := by
  induction trials generalizing t checks details with
  | zero =>
    rw [validate, obeys_throw]
    simp
  | succ trials ih =>
    have due : Due s csr t (.call (.check c.id)) := ⟨c, checks, calls, rfl, needed, standing⟩
    rw [validate]
    refine (Obeys.call due).lift_bind ?_
    rintro u answer rfl
    cases answer with
    | error e => simp [validate]
    | ok outcome =>
      cases outcome with
      | validated body => exact fun _ => ⟨⟨_, calls.check _⟩, .inr ⟨body, lastCheck?_check _ _⟩⟩
      | failed reason => exact ih (calls.check _) (standing.frame (recordChanges_snoc trivial))

theorem Obeys.orFail {ε α : Type} {answer : Flow (Except ε α)} {what : String}
    {message : ε → String} {due : Transcript → Ask → Prop} {ends : Transcript → Except ε α → Prop}
    (h : answer.Obeys due ends t) :
    (Call.orFail answer what message).run.Obeys due
      (fun u result => ∀ a, result = .ok a → ends u (.ok a)) t := by
  refine h.bind fun u answer ended a same => ?_
  cases answer with
  | error e => cases same
  | ok a' =>
    cases same
    exact ended

theorem obeys_pollFrom {p : Policy} {start looks : Nat} (calls : Calls c t checks gets 0)
    (confirmed : Confirmed c t) :
    (pollFrom p c.id start looks).run.Obeys (Due s csr)
      (fun u result => result = .ok () → (∃ gets, Calls c u checks gets 0) ∧ SeenIssued c u) t := by
  induction looks generalizing t gets with
  | zero =>
    rw [pollFrom, obeys_throw]
    simp
  | succ looks ih =>
    rw [pollFrom]
    refine (Obeys.call trivial).lift_bind ?_
    rintro u time rfl
    split
    · rw [pollFrom, obeys_throw]
      simp
    have quiet := authorityCalls_snoc (t := t) (e := ⟨.now, time⟩) rfl
    have calls' := calls.frame quiet
    have confirmed' := confirmed.frame quiet
    have due : Due s csr (t ++ [⟨.now, time⟩]) (.call (.get c.id)) :=
      ⟨c, checks, gets, calls', rfl, confirmed'⟩
    refine (Obeys.orFail (Obeys.call due)).run_bind (by simp) fun u look asked => ?_
    obtain rfl := asked look rfl
    split
    · next seen => exact fun _ => ⟨⟨_, calls'.get _⟩, look, lastGet?_get _ _, seen⟩
    split
    · simp
    refine (Obeys.call trivial).lift_bind ?_
    rintro u ⟨⟩ rfl
    have quiet' := authorityCalls_snoc (t := t ++ [⟨.now, time⟩] ++ [⟨.call (.get c.id), .ok look⟩])
      (e := ⟨.sleep p.pollDelay, ()⟩) rfl
    exact ih ((calls'.get _).frame quiet') ((confirmed'.get _ _).frame quiet')

theorem obeys_poll (calls : Calls c t checks 0 0) (confirmed : Confirmed c t) :
    (poll s c.id).run.Obeys (Due s csr)
      (fun u result => recordChanges u = recordChanges t ∧
        (result = .ok () → (∃ gets, Calls c u checks gets 0) ∧ SeenIssued c u)) t := by
  have obeys : (poll s c.id).run.Obeys (Due s csr) (fun u result => result = .ok () →
      (∃ gets, Calls c u checks gets 0) ∧ SeenIssued c u) t := by
    rw [poll]
    refine (Obeys.call trivial).lift_bind ?_
    rintro u start rfl
    have quiet := authorityCalls_snoc (t := t) (e := ⟨.now, start⟩) rfl
    exact obeys_pollFrom (calls.frame quiet) (confirmed.frame quiet)
  -- polling leaves the records alone, which is read off the run and not off the calls
  refine obeys.with_run.imp ?_
  rintro v result ⟨looked, u, rfl, run⟩
  have kept : recordChanges u = [] :=
    recordChanges_eq_nil fun e he => ((runs_poll run).2 e he).keepsRecords
  exact ⟨by simp [kept], looked⟩

/-- Changes of records may be asked for at any time. -/
theorem obeys_changes {α : Type} {x : Flow α} (h : x.Asks fun q => q.creates ∨ q.deletes) :
    x.Obeys (Due s csr)
      (fun v a => authorityCalls v = authorityCalls t ∧ ∃ u, v = t ++ u ∧ Runs x u a) t := by
  refine (h.obeys fun u q _ hq => ?_).imp ?_
  · obtain ⟨host, target, rfl⟩ | ⟨host, rfl⟩ := hq <;> trivial
  · rintro v a ⟨u, rfl, run⟩
    have quiet : authorityCalls u = [] := by
      refine authorityCalls_eq_nil fun e he => ?_
      obtain ⟨host, target, same⟩ | ⟨host, same⟩ := run.asks h e he <;> rw [same] <;> rfl
    exact ⟨by simp [quiet], u, rfl, run⟩

theorem obeys_prepare (calls : Calls c t 0 0 0) (unchanged : recordChanges t = []) :
    (prepare s c).run.Obeys (Due s csr)
      (fun u result => ∀ records, result = .ok records → (∃ checks, Calls c u checks 0 0) ∧
        Confirmed c u ∧ provisioned u = records.map (·.host) ∧ deletions u = []) t := by
  rw [prepare]
  split
  · next needed =>
    refine (obeys_changes (asks_provision c)).run_bind (by simp) ?_
    rintro u records ⟨quiet, added, rfl, run⟩
    have changes : recordChanges (t ++ added) = recordChanges added := by simp [unchanged]
    obtain ⟨tried, ⟨_, same, complete, undeleted, made, -⟩ | ⟨_, absurd, -⟩⟩ := runs_provision run
    · cases same
      have standing : Standing c added := ⟨complete, tried, undeleted⟩
      have standing' := standing.frame changes
      refine (obeys_validate (calls.frame quiet) needed standing').with_run.run_bind (by simp) ?_
      rintro u' ⟨⟩ ⟨met, checked, rfl, run'⟩ records' same
      cases same
      obtain ⟨calls', confirmed⟩ := met rfl
      have kept : recordChanges checked = [] :=
        recordChanges_eq_nil fun e he => (runs_validate run').1 e he ▸ trivial
      have changes' : recordChanges (t ++ added ++ checked) = recordChanges added := by
        simp [unchanged, kept]
      refine ⟨calls', confirmed, ?_, ?_⟩
      · rw [provisioned, changes']
        exact made
      · rw [deletions, changes']
        exact undeleted
    · cases absurd
  · next notNeeded =>
    rw [obeys_pure]
    intro records same
    cases same
    refine ⟨⟨0, calls⟩, .inl (by simpa using notNeeded), ?_, ?_⟩
    · simp [provisioned, unchanged]
    · simp [deletions, unchanged]

/-- When no failure is reported, no deletion was refused. -/
theorem runs_deleteRecords_nil {records : List Provisioned} (h : Runs (deleteRecords records) t []) :
    ∀ host, .deletion host false ∉ recordChanges t := by
  induction records generalizing t with
  | nil =>
    obtain ⟨rfl, -⟩ := runs_done.mp h
    simp
  | cons r records ih =>
    rw [deleteRecords] at h
    obtain ⟨t₁, t₂, answer, rfl, asked, rest⟩ := runs_bind.mp h
    obtain rfl := runs_make.mp asked
    obtain ⟨t₃, t₄, failures, rfl, others, ending⟩ := runs_bind.mp rest
    cases answer with
    | error e =>
      obtain ⟨-, absurd⟩ := runs_done.mp ending
      cases absurd
    | ok done =>
      obtain ⟨rfl, rfl⟩ := runs_done.mp ending
      simpa [Except.toBool] using ih others

theorem runs_cleanup_ok {records : List Provisioned} (h : Runs (cleanup records).run t (.ok ())) :
    ∀ host, .deletion host false ∉ recordChanges t := by
  obtain ⟨t₁, t₂, failures, rfl, deleting, rest⟩ := runs_bind.mp h
  obtain ⟨rfl, same⟩ := runs_done.mp rest
  rw [List.append_nil]
  cases failures with
  | nil => exact runs_deleteRecords_nil deleting
  | cons first more => cases same

theorem obeys_cleanup {records : List Provisioned} (made : provisioned t = records.map (·.host))
    (undeleted : deletions t = []) :
    (cleanup records).run.Obeys (Due s csr)
      (fun u result => authorityCalls u = authorityCalls t ∧ (result = .ok () → CleanedUp u)) t := by
  have changes : (cleanup records).run.Asks fun q => q.creates ∨ q.deletes :=
    ((asks_deleteRecords records).imp fun _ => .inr).bind fun _ => trivial
  refine (obeys_changes changes).imp ?_
  rintro v result ⟨quiet, u, rfl, run⟩
  refine ⟨quiet, ?_⟩
  rintro rfl
  obtain ⟨deleted, -, unmade, -⟩ := runs_cleanup run
  refine ⟨by simp [made, undeleted, deleted, unmade], fun host refused => ?_⟩
  rw [recordChanges_append] at refused
  rcases List.mem_append.mp refused with earlier | refused
  · cases List.filterMap_eq_nil_iff.mp undeleted _ earlier
  · exact runs_cleanup_ok run host refused

theorem obeys_deliver (calls : Calls c t checks gets 0) (seen : SeenIssued c t)
    (clean : CleanedUp t) :
    (deliver c.id).run.Obeys (Due s csr)
      (fun u result => ∀ issued, result = .ok issued → Obtained issued u) t := by
  have due : Due s csr t (.call (.download c.id)) := ⟨c, checks, gets, calls, rfl, seen, clean⟩
  rw [deliver]
  refine (Obeys.orFail (Obeys.call due)).run_bind (by simp) fun u d asked => ?_
  obtain rfl := asked d rfl
  intro issued encoded
  refine ⟨c, checks, gets, d, calls.download _, seen.download _ _, by simp, ?_⟩
  cases made : bundle d with
  | error e =>
    rw [made] at encoded
    cases encoded
  | ok issued' =>
    rw [made] at encoded
    exact congrArg Except.ok (Except.ok.inj encoded)

/-- A run makes every call in its time, and what it gives was seen issued and downloaded. -/
theorem obeys_run (parsed : SigningRequest.parse csr = .ok r) (fresh : authorityCalls t = [])
    (unchanged : recordChanges t = []) :
    (run s r).run.Obeys (Due s csr)
      (fun u result => ∀ issued, result = .ok issued → Obtained issued u) t := by
  have due : Due s csr t (.call (r.creation s)) := ⟨fresh, r, parsed, rfl⟩
  rw [run]
  refine (Obeys.orFail (Obeys.call due)).run_bind (by simp) fun u c asked => ?_
  obtain rfl := asked c rfl
  have created : Calls c (t ++ [⟨.call (r.creation s), .ok c⟩]) 0 0 0 :=
    ⟨_, _, _, [], by rw [authorityCalls_append, fresh]; rfl, rfl⟩
  have unchanged' : recordChanges (t ++ [⟨.call (r.creation s), .ok c⟩]) = [] := by
    rw [recordChanges_append, unchanged]
    rfl
  refine (obeys_prepare created unchanged').run_bind (by simp) fun t₁ records prepared => ?_
  obtain ⟨⟨checks, calls⟩, confirmed, made, undeleted⟩ := prepared records rfl
  refine (obeys_poll calls confirmed).lift_bind ?_
  rintro t₂ polled ⟨kept, looked⟩
  have made' : provisioned t₂ = records.map (·.host) := by rwa [provisioned, kept]
  have undeleted' : deletions t₂ = [] := by rwa [deletions, kept]
  refine (obeys_cleanup made' undeleted').lift_bind ?_
  rintro t₃ cleaned ⟨quiet, clean⟩
  cases polled with
  | error e => exact fun _ => by simp
  | ok _ =>
    cases cleaned with
    | error e => exact fun _ => by simp
    | ok _ =>
      obtain ⟨⟨gets, calls'⟩, seen⟩ := looked rfl
      exact obeys_deliver (calls'.frame quiet) (seen.frame quiet) (clean rfl)

/-! ## The enrollment -/

/-- A result is one that the cache gave, or one that was seen issued and downloaded. -/
def Rightful (csr : List UInt8) (t : Transcript) (result : Except String Issued) : Prop :=
  ∀ issued, result = .ok issued → Obtained issued t ∨ FromCache csr issued t

theorem Obtained.snoc {issued : Issued} (h : Obtained issued t)
    (quiet : e.request.isAuthority = false) : Obtained issued (t ++ [e]) := by
  obtain ⟨c, checks, gets, d, calls, seen, downloaded, made⟩ := h
  have same := authorityCalls_snoc (t := t) quiet
  exact ⟨c, checks, gets, d, calls.frame same, seen.frame same,
    List.mem_append_left _ downloaded, made⟩

theorem FromCache.snoc {issued : Issued} (h : FromCache csr issued t)
    (quiet : e.request.isAuthority = false) : FromCache csr issued (t ++ [e]) := by
  obtain ⟨r, answer, parsed, fresh, read, hit⟩ := h
  have same := authorityCalls_snoc (t := t) quiet
  exact ⟨r, answer, parsed, same.trans fresh, List.mem_append_left _ read, hit⟩

theorem Rightful.snoc {result : Except String Issued} (h : Rightful csr t result)
    (quiet : e.request.isAuthority = false) : Rightful csr (t ++ [e]) result :=
  fun issued same => (h issued same).imp (·.snoc quiet) (·.snoc quiet)

theorem obeys_issueLocked (parsed : SigningRequest.parse csr = .ok r)
    (fresh : authorityCalls t = []) (unchanged : recordChanges t = []) :
    (issueLocked s r (.ofNames r.names)).run.Obeys (Due s csr) (Rightful csr) t := by
  rw [issueLocked_eq]
  refine ⟨trivial, fun answer => ?_⟩
  have fresh' := (authorityCalls_snoc (t := t) (e := ⟨readAsk (.ofNames r.names), answer⟩) rfl).trans
    fresh
  have unchanged' := (recordChanges_snoc (t := t) (e := ⟨readAsk (.ofNames r.names), answer⟩)
    trivial).trans unchanged
  dsimp only
  cases hit : found (.ofNames r.names) answer with
  | some c =>
    rintro issued same
    cases same
    exact .inr ⟨r, answer, parsed, fresh', by simp, hit⟩
  | none =>
    refine (obeys_run parsed fresh' unchanged').bind fun u result obtained => ?_
    cases result with
    | error e => exact fun _ => by simp
    | ok issued =>
      have due := obtained issued rfl
      refine ⟨⟨issued, due, rfl⟩, fun written issued' same => ?_⟩
      cases same
      exact .inl (due.snoc rfl)

theorem obeys_issue : (issue s csr).run.Obeys (Due s csr) (Rightful csr) [] := by
  cases parsed : SigningRequest.parse csr with
  | error e =>
    rw [issue_malformed parsed]
    exact fun _ => by simp
  | ok r =>
    have placing : (placeAll r.names).run.Obeys (Due s csr)
        (fun t result => ∃ u, t = [] ++ u ∧ Runs (placeAll r.names).run u result) [] := by
      refine (asks_placeAll r.names).obeys fun u q _ hq => ?_
      obtain ⟨host, rfl⟩ := hq
      trivial
    rw [issue_eq parsed]
    refine placing.bind ?_
    rintro t placed ⟨u, same, run⟩
    rw [List.nil_append] at same
    subst same
    cases placed with
    | error e => exact fun _ => by simp
    | ok _ =>
      have places := run.asks (asks_placeAll r.names)
      have fresh : authorityCalls t = [] := authorityCalls_eq_nil fun e he => by
        obtain ⟨host, same⟩ := places e he
        rw [same]
        rfl
      have unchanged : recordChanges t = [] := recordChanges_eq_nil fun e he => by
        obtain ⟨host, same⟩ := places e he
        rw [same]
        trivial
      refine ⟨trivial, fun locked => ?_⟩
      refine (obeys_issueLocked parsed ?_ ?_).bind fun u result rightful => ?_
      · simpa [authorityCalls, Ask.isAuthority] using fresh
      · simpa [recordChanges, Event.recordChange?] using unchanged
      · exact ⟨trivial, fun released => rightful.snoc rfl⟩

/-! ## In order -/

/-- The calls to the authority, as far as they are made: one to create a certificate, and if
that was made, checks, looks at the status, and at most one download of it. -/
def Sequential (t : Transcript) : Prop :=
  authorityCalls t = [] ∨
    (∃ names pem days e, authorityCalls t = [⟨.call (.create names pem days), .error e⟩]) ∨
    ∃ c checks gets downloads, Calls c t checks gets downloads ∧ downloads ≤ 1

/-- A request that is due keeps the calls in sequence. -/
theorem Sequential.snoc (h : Sequential t) (due : Due s csr t e.request) :
    Sequential (t ++ [e]) := by
  have other : e.request.isAuthority = false → Sequential (t ++ [e]) := by
    intro quiet
    have same := authorityCalls_snoc (t := t) quiet
    rw [Sequential, same]
    exact h.imp_right (·.imp_right fun ⟨c, checks, gets, downloads, calls, once⟩ =>
      ⟨c, checks, gets, downloads, calls.frame same, once⟩)
  obtain ⟨request, answer⟩ := e
  cases request with
  | call q =>
    cases q with
    | create names pem days =>
      have first : authorityCalls (t ++ [⟨.call (.create names pem days), answer⟩]) =
          [⟨.call (.create names pem days), answer⟩] := by
        rw [authorityCalls_append, due.1]
        rfl
      cases answer with
      | error e => exact .inr (.inl ⟨names, pem, days, e, first⟩)
      | ok c => exact .inr (.inr ⟨c, 0, 0, 0, ⟨names, pem, days, [], first, rfl⟩, Nat.zero_le 1⟩)
    | check id =>
      obtain ⟨c, checks, calls, rfl, -⟩ := due
      exact .inr (.inr ⟨c, _, _, _, calls.check answer, Nat.zero_le 1⟩)
    | get id =>
      obtain ⟨c, checks, gets, calls, rfl, -⟩ := due
      exact .inr (.inr ⟨c, _, _, _, calls.get answer, Nat.zero_le 1⟩)
    | download id =>
      obtain ⟨c, checks, gets, calls, rfl, -⟩ := due
      exact .inr (.inr ⟨c, _, _, _, calls.download answer, Nat.le_refl 1⟩)
    | _ => exact other rfl
  | _ => exact other rfl

/-- Requests that were all due when they were made are in sequence. -/
theorem Sequential.append (h : Sequential t)
    (due : ∀ before e later, u = before ++ e :: later → Due s csr (t ++ before) e.request) :
    Sequential (t ++ u) := by
  induction u generalizing t with
  | nil => simpa using h
  | cons e u ih =>
    have first : Due s csr t e.request := by simpa using due [] e u rfl
    have others := ih (h.snoc first) fun before e' later split => by
      have later' := due (e :: before) e' later (by simp [split])
      simpa using later'
    simpa using others

/-- What an enrollment comes to, at any time and whatever it was answered. -/
structure InOrder (s : Setup) (csr : List UInt8) (t : Transcript)
    (left : Flow (Except String Issued)) : Prop where
  sequence : Sequential t
  /-- Every request was due when it was made. -/
  due : ∀ before e later, t = before ++ e :: later → Due s csr before e.request
  /-- So is the one that waits for its answer. -/
  next : ∀ request next, left = .ask request next → Due s csr t request
  /-- What is given is from the cache, or it was seen issued, downloaded and encoded. -/
  result : ∀ issued, left = .done (.ok issued) → Obtained issued t ∨ FromCache csr issued t

/-- Every enrollment goes on in order, whatever the answers are and wherever it stops. -/
theorem issue_in_order {left : Flow (Except String Issued)}
    (h : Becomes (issue s csr).run t left) : InOrder s csr t left := by
  have obeys : (issue s csr).run.Obeys (Due s csr) (Rightful csr) [] := obeys_issue
  have due : ∀ before e later, t = before ++ e :: later → Due s csr before e.request :=
    fun before e later split => obeys.due_of_becomes h split
  have rest : left.Obeys (Due s csr) (Rightful csr) t := obeys.becomes h
  have sequence : Sequential ([] ++ t) := Sequential.append (.inl rfl) due
  refine ⟨sequence, due, ?_, ?_⟩
  · rintro request next rfl
    exact rest.1
  · rintro issued rfl
    exact rest issued rfl

/-- A certificate as text, with nothing in it that need not be there. -/
def leafText : String :=
  "-----BEGIN CERTIFICATE-----\n" ++
  "MEMwOAIBATAEBgIqAzAAMB4XDTI0MDMwMTAwMDAwMFoXDTM0MDMwMTAwMDAwMFowADAJMAQGAioDAwEAMAQGAioDAwEA" ++
  "\n-----END CERTIFICATE-----\n"

theorem bundle_leafText : ∃ issued, bundle ⟨leafText, ""⟩ = .ok issued := by
  have encoded : (bundle ⟨leafText, ""⟩).toOption.isSome = true := by decide +kernel
  obtain ⟨issued, same⟩ := Option.isSome_iff_exists.mp encoded
  exact ⟨issued, Data.eq_ok_of_toOption same⟩

/-- A run of which every stage succeeds. -/
theorem runs_of_prepared {records : List Provisioned} {t₁ t₂ t₃ t₄ : Transcript}
    {result : Except String Issued} (prepared : Runs (prepare s c).run t₁ (.ok records))
    (polling : Runs (poll s c.id).run t₂ (.ok ()))
    (cleaning : Runs (cleanup records).run t₃ (.ok ()))
    (delivering : Runs (deliver c.id).run t₄ result) :
    Runs (run s r).run (⟨.call (r.creation s), .ok c⟩ :: (t₁ ++ (t₂ ++ (t₃ ++ t₄)))) result := by
  have created : Runs (Call.orFail (r.creation s).make "error while creating certificate: "
      Authority.Error.message).run [⟨.call (r.creation s), .ok c⟩] (.ok c) :=
    .ask _ (.done _)
  rw [run]
  refine runs_run_bind.mpr (.inr ⟨[_], _, c, rfl, created, ?_⟩)
  refine runs_run_bind.mpr (.inr ⟨_, _, records, rfl, prepared, ?_⟩)
  refine runs_lift_bind.mpr ⟨_, _, _, rfl, polling, ?_⟩
  exact runs_lift_bind.mpr ⟨_, _, _, rfl, cleaning, delivering⟩

/-- A run of a certificate that has to be validated, of which every stage succeeds. -/
theorem runs_of_stages {records : List Provisioned} {t₁ t₂ t₃ t₄ t₅ : Transcript}
    {result : Except String Issued} (needed : c.status.needsValidation = true)
    (provisioning : Runs (provision c).run t₁ (.ok records))
    (checking : Runs (validate c.id s.policy.verifyTrials "no details given").run t₂ (.ok ()))
    (polling : Runs (poll s c.id).run t₃ (.ok ()))
    (cleaning : Runs (cleanup records).run t₄ (.ok ()))
    (delivering : Runs (deliver c.id).run t₅ result) :
    Runs (run s r).run
      (⟨.call (r.creation s), .ok c⟩ :: (t₁ ++ t₂ ++ (t₃ ++ (t₄ ++ t₅)))) result := by
  have checked : Runs (validate c.id s.policy.verifyTrials "no details given" >>=
      fun _ => pure records).run t₂ (.ok records) :=
    runs_run_bind.mpr (.inr ⟨t₂, [], (), (List.append_nil t₂).symm, checking, .done _⟩)
  have prepared : Runs (prepare s c).run (t₁ ++ t₂) (.ok records) := by
    rw [prepare, if_pos needed]
    exact runs_run_bind.mpr (.inr ⟨t₁, t₂, records, rfl, provisioning, checked⟩)
  exact runs_of_prepared prepared polling cleaning delivering

/-- The challenges are met at the second check, and the certificate is issued at the second
look. -/
theorem issue_in_order_validated :
    ∃ t issued, Becomes (issue { policy := ⟨6, 1, 3, 90⟩, cache := ⟨1000⟩ }
        SigningRequest.oneDomain).run t (.done (.ok issued)) ∧
      Calls threeChallenges t 2 2 1 ∧ Obtained issued t := by
  obtain ⟨r, parsed, names⟩ := SigningRequest.parse_oneDomain
  obtain ⟨issued, encoded⟩ := bundle_leafText
  let s : Setup := { policy := ⟨6, 1, 3, 90⟩, cache := ⟨1000⟩ }
  have provisioning : Runs (provision threeChallenges).run
      [⟨.call (.createRecord "x.a.org" "ca.net"), .ok ()⟩,
        ⟨.call (.createRecord "x.b.org" "ca.net"), .ok ()⟩,
        ⟨.call (.createRecord "x.c.org" "ca.net"), .ok ()⟩]
      (.ok [⟨"a.org", "x.a.org"⟩, ⟨"b.org", "x.b.org"⟩, ⟨"c.org", "x.c.org"⟩]) :=
    .ask _ (.ask _ (.ask _ (.done _)))
  have checking : Runs (validate "7" 6 "no details given").run
      [⟨.call (.check "7"), .ok (.failed "not yet")⟩,
        ⟨.call (.check "7"), .ok (.validated .null)⟩] (.ok ()) := by
    rw [validate]
    refine .ask _ ?_
    change Runs (validate "7" 5 "not yet").run _ _
    rw [validate]
    exact .ask _ (.done _)
  have polling : Runs (poll s "7").run [⟨.now, (0 : Nat)⟩, ⟨.now, (0 : Nat)⟩,
      ⟨.call (.get "7"), .ok { threeChallenges with status := .pendingValidation }⟩,
      ⟨.sleep 1, ()⟩, ⟨.now, (1 : Nat)⟩,
      ⟨.call (.get "7"), .ok { threeChallenges with status := .issued }⟩] (.ok ()) := by
    rw [poll]
    refine .ask _ ?_
    change Runs (pollFrom s.policy "7" 0 5).run _ _
    rw [pollFrom]
    refine .ask _ (.ask _ (.ask _ ?_))
    change Runs (pollFrom s.policy "7" 0 4).run _ _
    rw [pollFrom]
    exact .ask _ (.ask _ (.done _))
  have cleaning : Runs (cleanup [⟨"a.org", "x.a.org"⟩, ⟨"b.org", "x.b.org"⟩, ⟨"c.org", "x.c.org"⟩]).run
      [⟨.call (.deleteRecord "x.a.org"), .ok ()⟩, ⟨.call (.deleteRecord "x.b.org"), .ok ()⟩,
        ⟨.call (.deleteRecord "x.c.org"), .ok ()⟩] (.ok ()) :=
    .ask _ (.ask _ (.ask _ (.done _)))
  have delivering : Runs (deliver "7").run [⟨.call (.download "7"), .ok ⟨leafText, ""⟩⟩]
      ((bundle ⟨leafText, ""⟩).mapError Error.message) :=
    .ask _ (.done _)
  rw [encoded] at delivering
  have issuing : Runs (issueAnew s r (.ofNames r.names)) _ (.ok issued) :=
    runs_bind.mpr ⟨_, [⟨writeAsk s (.ofNames r.names) issued, .ok ()⟩], .ok issued, rfl,
      runs_of_stages (c := threeChallenges) rfl provisioning checking polling cleaning delivering,
      .ask _ (.done _)⟩
  have placing : Runs (placeAll r.names).run [⟨.call (.place "a.org"), .ok ()⟩] (.ok ()) := by
    rw [names]
    exact .ask _ (.done _)
  have gone : found (.ofNames r.names) (.error "gone") = none := rfl
  have h := becomes_of_runs (runs_issue_of_anew parsed placing gone issuing)
  refine ⟨_, issued, h, ⟨_, _, _, _, rfl, rfl⟩, ?_⟩
  have inOrder := issue_in_order h
  rcases inOrder.result issued rfl with obtained | ⟨r', answer, -, fresh, -⟩
  · exact obtained
  · cases fresh

end CertEnrollment.Enrollment
