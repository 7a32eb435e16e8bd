import CertEnrollment.Enrollment.Response
import CertEnrollment.Proofs.Cache.Entries
import CertEnrollment.Proofs.Enrollment.RecordChanges

/-!
# How far an enrollment is

At any time, what an enrollment has asked for and what it asks for next tell how far it
is: it places its hosts, waits for its locks, looks into the cache, works on a
certificate, stores it, and gives its locks back. Other enrollments do not come into
this; they only decide about the answers.
-/
namespace CertEnrollment.Enrollment
open Authority Cache Interaction

/-! ## The enrollment in one piece -/

/-- The certificate that an answer of the cache gives. -/
def found (domains : DomainSet) : Except String (Option String) → Option Issued
  | .ok (some text) => (decodeEntry domains text).toOption
  | _ => none

def readAsk (domains : DomainSet) : Ask := .call (.cache (.read (entryKey domains)))

def writeAsk (s : Setup) (domains : DomainSet) (c : Issued) : Ask :=
  .call (.cache (.write (entryKey domains) c.text s.cache.ttl))

/-- What is left to do when the cache has nothing. -/
def issueAnew (s : Setup) (r : SigningRequest) (domains : DomainSet) :
    Flow (Except String Issued) :=
  (run s r).run >>= fun
    | .error e => .done (.error e)
    | .ok c => .ask (writeAsk s domains c) fun _ => .done (.ok c)

theorem cached_eq (s : Setup) (domains : DomainSet) :
    cached s domains = .ask (readAsk domains) fun answer => .done (found domains answer) := by
  unfold cached onCache Prefetch.get
  refine congrArg (Interaction.ask (readAsk domains)) (funext fun answer => ?_)
  cases answer with
  | error reason => rfl
  | ok entry =>
    cases entry with
    | none => rfl
    | some text =>
      simp only [found, Interaction.bind]
      cases decodeEntry domains text <;> rfl

theorem remember_eq (s : Setup) (domains : DomainSet) (c : Issued) :
    remember s domains c = .ask (writeAsk s domains c) fun _ => .done () :=
  rfl

theorem issueLocked_eq (s : Setup) (r : SigningRequest) (domains : DomainSet) :
    (issueLocked s r domains).run = .ask (readAsk domains) fun answer =>
      match found domains answer with
      | some c => .done (.ok c)
      | none => issueAnew s r domains := by
  rw [issueLocked, cached_eq]
  refine congrArg (Interaction.ask (readAsk domains)) (funext fun answer => ?_)
  dsimp only
  cases found domains answer with
  | some c => rfl
  | none =>
    refine (ExceptT.run_bind (run s r) _).trans (congrArg _ (funext fun result => ?_))
    cases result <;> rfl

/-- What is left to do when the hosts are placed. -/
def issueInTurn (s : Setup) (r : SigningRequest) (domains : DomainSet) : Flow Response :=
  .ask (.lock domains) fun _ => (issueLocked s r domains).run >>= fun result =>
    .ask .unlock fun _ => .done (.ofResult result)

theorem issue_eq {s : Setup} {csr : List UInt8} {r : SigningRequest}
    (parsed : SigningRequest.parse csr = .ok r) :
    (issue s csr).run = (placeAll r.names).run >>= fun
      | .error e => .done (.error e)
      | .ok () => .ask (.lock (.ofNames r.names)) fun _ =>
        (issueLocked s r (.ofNames r.names)).run >>= fun result =>
          .ask .unlock fun _ => .done result := by
  rw [issue, parsed]
  change (placeAll r.names >>= fun _ => _).run = _
  refine (ExceptT.run_bind (placeAll r.names) _).trans (congrArg _ (funext fun result => ?_))
  cases result with
  | error e => rfl
  | ok _ =>
    refine congrArg (Interaction.ask _) (funext fun _ => ?_)
    exact ExceptT.run_bind_lift (issueLocked s r (.ofNames r.names)).run _

theorem issue_malformed {s : Setup} {csr : List UInt8} {e : Error}
    (malformed : SigningRequest.parse csr = .error e) :
    (issue s csr).run = .done (.error (configurationError e.message)) := by
  rw [issue, malformed]
  rfl

/-- An enrollment of which the hosts are placed ends as what it does with its locks. -/
theorem runs_issue_of_locked {s : Setup} {csr : List UInt8} {r : SigningRequest}
    {t₁ t₂ : Transcript} {result : Except String Issued}
    (parsed : SigningRequest.parse csr = .ok r) (placing : Runs (placeAll r.names).run t₁ (.ok ()))
    (locked : Runs (issueLocked s r (.ofNames r.names)).run t₂ result) :
    Runs (issue s csr).run
      (t₁ ++ ⟨.lock (.ofNames r.names), ()⟩ :: (t₂ ++ [⟨.unlock, ()⟩])) result := by
  rw [issue_eq parsed]
  refine runs_bind.mpr ⟨t₁, _, .ok (), rfl, placing, ?_⟩
  refine runs_ask.mpr ⟨(), _, rfl, ?_⟩
  exact runs_bind.mpr ⟨_, _, _, rfl, locked, runs_ask.mpr ⟨(), [], rfl, .done _⟩⟩

/-- An enrollment that finds nothing in the cache ends as its work on a certificate does. -/
theorem runs_issue_of_anew {s : Setup} {csr : List UInt8} {r : SigningRequest}
    {t₁ t₂ : Transcript} {result : Except String Issued}
    (parsed : SigningRequest.parse csr = .ok r) (placing : Runs (placeAll r.names).run t₁ (.ok ()))
    {answer : (readAsk (.ofNames r.names)).Answer} (miss : found (.ofNames r.names) answer = none)
    (issuing : Runs (issueAnew s r (.ofNames r.names)) t₂ result) :
    Runs (issue s csr).run (t₁ ++ ⟨.lock (.ofNames r.names), ()⟩ ::
      (⟨readAsk (.ofNames r.names), answer⟩ :: t₂ ++ [⟨.unlock, ()⟩])) result := by
  refine runs_issue_of_locked parsed placing ?_
  rw [issueLocked_eq]
  refine .ask answer ?_
  rwa [miss]

/-- An enrollment for which the cache has a certificate gives that. -/
theorem runs_issue_of_hit {s : Setup} {csr : List UInt8} {r : SigningRequest} {t₁ : Transcript}
    {c : Issued} (parsed : SigningRequest.parse csr = .ok r)
    (placing : Runs (placeAll r.names).run t₁ (.ok ()))
    {answer : (readAsk (.ofNames r.names)).Answer} (hit : found (.ofNames r.names) answer = some c) :
    Runs (issue s csr).run (t₁ ++ ⟨.lock (.ofNames r.names), ()⟩ ::
      ⟨readAsk (.ofNames r.names), answer⟩ :: [⟨.unlock, ()⟩]) (.ok c) := by
  have locked : Runs (issueLocked s r (.ofNames r.names)).run
      [⟨readAsk (.ofNames r.names), answer⟩] (.ok c) := by
    rw [issueLocked_eq]
    refine .ask answer ?_
    rw [hit]
    exact .done _
  exact runs_issue_of_locked parsed placing locked

theorem enroll_eq {s : Setup} {csr : List UInt8} {r : SigningRequest}
    (parsed : SigningRequest.parse csr = .ok r) :
    enroll s csr = (placeAll r.names).run >>= fun
      | .error e => .done (.failed e)
      | .ok () => issueInTurn s r (.ofNames r.names) := by
  rw [enroll, issue_eq parsed, map_bind]
  refine congrArg _ (funext fun result => ?_)
  cases result with
  | error e => rfl
  | ok _ =>
    refine congrArg (Interaction.ask _) (funext fun _ => ?_)
    exact bind_bind (issueLocked s r (.ofNames r.names)).run _ _

theorem enroll_malformed {s : Setup} {csr : List UInt8} {e : Error}
    (malformed : SigningRequest.parse csr = .error e) :
    enroll s csr = .done (.failed (configurationError e.message)) := by
  rw [enroll, issue_malformed malformed]
  rfl

/-! ## What is asked for -/

/-- Has a host placed. -/
def Ask.places (q : Ask) : Prop := ∃ host, q = .call (.place host)

/-- Has to do with a certificate, and not with hosts, the cache, or the locks. -/
def Ask.works : Ask → Prop
  | .call (.place _) => False
  | .call (.cache _) => False
  | .call _ => True
  | .lock _ => False
  | .unlock => False
  | .now => True
  | .sleep _ => True

theorem asks_placeAll (hosts : List String) : (placeAll hosts).run.Asks Ask.places := by
  induction hosts with
  | nil => exact asks_pure
  | cons host hosts ih =>
    rw [placeAll]
    exact Asks.run_bind (asks_orFail (asks_call.mpr ⟨host, rfl⟩)) fun _ => ih

theorem Ask.polls.works {q : Ask} {id : String} (h : q.polls id) : q.works := by
  cases q with
  | call c =>
    cases h
    trivial
  | lock domains => exact h
  | unlock => exact h
  | _ => trivial

theorem Ask.works_of_changes {q : Ask} (h : q.creates ∨ q.deletes) : q.works := by
  obtain ⟨host, target, rfl⟩ | ⟨host, rfl⟩ := h <;> trivial

/-- The work on a certificate asks for nothing but its stages do. -/
theorem asks_run_of {p : Ask → Prop} (s : Setup) (r : SigningRequest)
    (creation : p (.call (r.creation s))) (changes : ∀ q : Ask, q.creates ∨ q.deletes → p q)
    (checks : ∀ id, p (.call (.check id))) (polls : ∀ id (q : Ask), q.polls id → p q)
    (downloads : ∀ id, p (.call (.download id))) : (run s r).run.Asks p := by
  refine Asks.run_bind (asks_orFail (asks_call.mpr creation)) fun c => ?_
  have preparing : (prepare s c).run.Asks p := by
    rw [prepare]
    split
    · refine Asks.run_bind ((asks_provision c).imp changes) fun records => ?_
      refine Asks.run_bind ((asks_validate _ _ _).imp ?_) fun _ => asks_pure
      exact fun _ same => same ▸ checks c.id
    · exact asks_pure
  have polling : (poll s c.id).run.Asks p := by
    refine Asks.lift_bind (asks_call.mpr (polls c.id _ trivial)) fun start => ?_
    exact (asks_pollFrom s.policy c.id start s.looks).imp (polls c.id)
  refine Asks.run_bind preparing fun records => Asks.lift_bind polling fun polled => ?_
  have cleaning : (cleanup records).run.Asks p :=
    ((asks_deleteRecords records).imp fun q h => changes q (.inr h)).map _
  refine Asks.lift_bind cleaning fun cleaned => ?_
  refine Asks.run_bind trivial fun _ => Asks.run_bind trivial fun _ => ?_
  exact (asks_deliver c.id).imp fun _ same => same ▸ downloads c.id

theorem asks_run (s : Setup) (r : SigningRequest) : (run s r).run.Asks Ask.works :=
  asks_run_of s r trivial (fun _ => Ask.works_of_changes) (fun _ => trivial)
    (fun _ _ => Ask.polls.works) fun _ => trivial

/-! ## Stages of an enrollment -/

/-- The locks are given back, and then the result is given. -/
inductive Ending (result : Except String Issued) : Transcript → Flow Response → Prop
  | returning : Ending result [] (.ask .unlock fun _ => .done (.ofResult result))
  | returned : Ending result [⟨.unlock, ()⟩] (.done (.ofResult result))

/-- What was asked for before the cache was looked into, and the look. -/
def Looked (domains : DomainSet) (answer : (readAsk domains).Answer) (t : Transcript) : Prop :=
  ∃ placing : Transcript, (∀ e ∈ placing, e.request.places) ∧
    t = placing ++ [⟨.lock domains, ()⟩, ⟨readAsk domains, answer⟩]

/-- How far an enrollment is: what was asked for, and what is left. -/
inductive Progress (s : Setup) (r : SigningRequest) (domains : DomainSet) :
    Transcript → Flow Response → Prop
  | placing {t : Transcript} (placed : ∀ e ∈ t, e.request.places) {host : String}
      (next : (Call.place host).Answer → Flow Response) :
      Progress s r domains t (.ask (.call (.place host)) next)
  | refused {t : Transcript} (placed : ∀ e ∈ t, e.request.places) (message : String) :
      Progress s r domains t (.done (.failed message))
  | waiting {t : Transcript} (placed : ∀ e ∈ t, e.request.places) :
      Progress s r domains t (issueInTurn s r domains)
  | looking {t : Transcript} (placed : ∀ e ∈ t, e.request.places)
      (next : (readAsk domains).Answer → Flow Response) :
      Progress s r domains (t ++ [⟨.lock domains, ()⟩]) (.ask (readAsk domains) next)
  | served {t u : Transcript} {y : Flow Response} {answer : (readAsk domains).Answer} {c : Issued}
      (looked : Looked domains answer t) (hit : found domains answer = some c)
      (ending : Ending (.ok c) u y) : Progress s r domains (t ++ u) y
  | working {t u : Transcript} {answer : (readAsk domains).Answer} {request : Ask}
      (looked : Looked domains answer t) (miss : found domains answer = none)
      (work : ∀ e ∈ u, e.request.works) (more : request.works)
      (next : request.Answer → Flow Response) :
      Progress s r domains (t ++ u) (.ask request next)
  | storing {t u : Transcript} {answer : (readAsk domains).Answer} (c : Issued)
      (looked : Looked domains answer t) (miss : found domains answer = none)
      (work : ∀ e ∈ u, e.request.works) (begun : u ≠ [])
      (next : Except String Unit → Flow Response) :
      Progress s r domains (t ++ u) (.ask (writeAsk s domains c) next)
  | stored {t u v : Transcript} {y : Flow Response} {answer : (readAsk domains).Answer}
      {c : Issued} (looked : Looked domains answer t) (miss : found domains answer = none)
      (work : ∀ e ∈ u, e.request.works) (begun : u ≠ []) (written : Except String Unit)
      (ending : Ending (.ok c) v y) :
      Progress s r domains (t ++ (u ++ ⟨writeAsk s domains c, written⟩ :: v)) y
  | failed {t u v : Transcript} {y : Flow Response} {answer : (readAsk domains).Answer}
      {e : String} (looked : Looked domains answer t) (miss : found domains answer = none)
      (work : ∀ e ∈ u, e.request.works) (begun : u ≠ []) (ending : Ending (.error e) v y) :
      Progress s r domains (t ++ (u ++ v)) y

variable {s : Setup} {r : SigningRequest} {domains : DomainSet} {t : Transcript}
  {y : Flow Response}

theorem ending_of_becomes {result : Except String Issued}
    (h : Becomes (.ask .unlock fun _ => .done (.ofResult result)) t y) : Ending result t y := by
  obtain ⟨rfl, rfl⟩ | ⟨answer, rest, rfl, later⟩ := becomes_ask.mp h
  · exact .returning
  · obtain ⟨rfl, rfl⟩ := becomes_done.mp later
    exact .returned

theorem progress_of_anew {answer : (readAsk domains).Answer} {u : Transcript}
    (looked : Looked domains answer t) (miss : found domains answer = none)
    (h : Becomes (issueAnew s r domains >>= fun result =>
      .ask .unlock fun _ => .done (.ofResult result)) u y) :
    Progress s r domains (t ++ u) y := by
  rw [issueAnew, bind_bind] at h
  obtain ⟨request, next, inside, rfl⟩ | ⟨u₁, u₂, result, rfl, complete, later⟩ := becomes_bind h
  · obtain ⟨work, more, -⟩ := inside.asks (asks_run s r)
    exact .working looked miss work more _
  · have work := complete.asks (asks_run s r)
    have begun : u₁ ≠ [] := by
      rintro rfl
      cases complete
    cases result with
    | error e => exact .failed looked miss work begun (ending_of_becomes later)
    | ok c =>
      obtain ⟨rfl, rfl⟩ | ⟨written, rest, rfl, last⟩ := becomes_ask.mp later
      · rw [List.append_nil]
        exact .storing c looked miss work begun _
      · exact .stored looked miss work begun written (ending_of_becomes last)

/-- Whatever the answers were, an enrollment is at one of its stages. -/
theorem progress_of_becomes {csr : List UInt8} (parsed : SigningRequest.parse csr = .ok r)
    (h : Becomes (enroll s csr) t y) : Progress s r (.ofNames r.names) t y := by
  rw [enroll_eq parsed] at h
  obtain ⟨request, next, inside, rfl⟩ | ⟨t₁, t₂, result, rfl, complete, later⟩ := becomes_bind h
  · obtain ⟨placed, ⟨host, rfl⟩, -⟩ := inside.asks (asks_placeAll r.names)
    exact .placing placed _
  have placed := complete.asks (asks_placeAll r.names)
  cases result with
  | error e =>
    obtain ⟨rfl, rfl⟩ := becomes_done.mp later
    rw [List.append_nil]
    exact .refused placed e
  | ok _ =>
    obtain ⟨rfl, rfl⟩ | ⟨⟨⟩, t₃, rfl, locked⟩ := becomes_ask.mp later
    · rw [List.append_nil]
      exact .waiting placed
    rw [issueLocked_eq] at locked
    obtain ⟨rfl, rfl⟩ | ⟨answer, t₄, rfl, rest⟩ := becomes_ask.mp locked
    · exact .looking placed _
    have looked : Looked (.ofNames r.names) answer
        (t₁ ++ [⟨.lock (.ofNames r.names), ()⟩, ⟨readAsk (.ofNames r.names), answer⟩]) :=
      ⟨t₁, placed, rfl⟩
    rw [List.append_cons, List.append_cons, List.append_assoc t₁]
    cases hit : found (.ofNames r.names) answer with
    | some c =>
      simp only [hit] at rest
      exact .served looked hit (ending_of_becomes rest)
    | none =>
      simp only [hit] at rest
      exact progress_of_anew looked hit rest

/-- Hosts that are all placed were placed one by one. -/
theorem placed_of_placeAll {hosts : List String} (h : Runs (placeAll hosts).run t (.ok ())) :
    ∀ host ∈ hosts, ⟨.call (.place host), .ok ()⟩ ∈ t := by
  induction hosts generalizing t with
  | nil => simp
  | cons host hosts ih =>
    rw [placeAll, runs_run_bind] at h
    obtain ⟨e, -, absurd⟩ | ⟨t₁, t₂, ⟨⟩, rfl, first, rest⟩ := h
    · cases absurd
    obtain ⟨answer, asked, same⟩ := runs_orFail.mp first
    obtain rfl := runs_make.mp asked
    cases answer with
    | error e => cases same
    | ok _ =>
      refine List.forall_mem_cons.mpr ⟨List.mem_cons_self, fun host hh => ?_⟩
      exact List.mem_cons_of_mem _ (ih rest host hh)

/-- Placing succeeds when every host is placed. -/
theorem runs_placeAll (hosts : List String) :
    Runs (placeAll hosts).run (hosts.map fun host => ⟨.call (.place host), .ok ()⟩) (.ok ()) := by
  induction hosts with
  | nil => exact .done _
  | cons host hosts ih =>
    rw [placeAll, List.map_cons, ← List.singleton_append]
    refine runs_run_bind.mpr (.inr ⟨_, _, (), rfl, ?_, ih⟩)
    exact runs_orFail.mpr ⟨.ok (), runs_make.mpr rfl, rfl⟩

/-- An enrollment that has asked for anything else has had all its hosts placed. -/
theorem placed_of_becomes {csr : List UInt8} (parsed : SigningRequest.parse csr = .ok r)
    (h : Becomes (enroll s csr) t y) {e : Event Ask Ask.Answer} (he : e ∈ t)
    (later : ¬ e.request.places) : ∀ host ∈ r.names, ⟨.call (.place host), .ok ()⟩ ∈ t := by
  rw [enroll_eq parsed] at h
  obtain ⟨request, next, inside, -⟩ | ⟨t₁, t₂, result, rfl, complete, rest⟩ := becomes_bind h
  · exact absurd ((inside.asks (asks_placeAll r.names)).1 e he) later
  · cases result with
    | error reason =>
      obtain ⟨rfl, -⟩ := becomes_done.mp rest
      rw [List.append_nil] at he
      exact absurd (complete.asks (asks_placeAll r.names) e he) later
    | ok _ =>
      exact fun host hh => List.mem_append_left _ (placed_of_placeAll complete host hh)

/-- Once anything else is asked for, all hosts were placed. -/
theorem placed_of_asks {csr : List UInt8} (parsed : SigningRequest.parse csr = .ok r) {request : Ask}
    {next : request.Answer → Flow (Except String Issued)}
    (h : Becomes (issue s csr).run t (.ask request next)) (later : ¬ request.places) :
    ∀ host ∈ r.names, ⟨.call (.place host), .ok ()⟩ ∈ t := by
  rw [issue_eq parsed] at h
  obtain ⟨request', next', inside, same⟩ | ⟨t₁, t₂, result, rfl, complete, rest⟩ := becomes_bind h
  · injection same with same
    subst same
    exact absurd (inside.asks (asks_placeAll r.names)).2.1 later
  · cases result with
    | error reason => cases (becomes_done.mp rest).2
    | ok _ => exact fun host hh => List.mem_append_left _ (placed_of_placeAll complete host hh)

/-! ## What a stage tells -/

/-- The locks were taken and are not given back. -/
def Inside (t : Transcript) : Prop :=
  (∃ e ∈ t, ∃ domains, e.request = .lock domains) ∧ ∀ e ∈ t, e.request ≠ .unlock

/-- All that is left is to give the locks back and to give this result. -/
def Gives (result : Except String Issued) (y : Flow Response) : Prop :=
  (y = .ask .unlock fun _ => .done (.ofResult result)) ∨ y = .done (.ofResult result)

theorem Ending.gives {result : Except String Issued} {u : Transcript} (h : Ending result u y) :
    Gives result y := by
  cases h with
  | returning => exact .inl rfl
  | returned => exact .inr rfl

theorem Ending.requests {result : Except String Issued} {u : Transcript} (h : Ending result u y) :
    ∀ e ∈ u, e.request = .unlock := by
  cases h with
  | returning => simp
  | returned => simp

theorem Looked.requests {answer : (readAsk domains).Answer} (h : Looked domains answer t) :
    ∀ e ∈ t, e.request.places ∨ e.request = .lock domains ∨ e = ⟨readAsk domains, answer⟩ := by
  obtain ⟨placing, placed, rfl⟩ := h
  intro e he
  rcases List.mem_append.mp he with he | he
  · exact .inl (placed e he)
  · simp only [List.mem_cons, List.not_mem_nil, or_false] at he
    rcases he with rfl | rfl
    · exact .inr (.inl rfl)
    · exact .inr (.inr rfl)

theorem Looked.read {answer : (readAsk domains).Answer} (h : Looked domains answer t) :
    ⟨readAsk domains, answer⟩ ∈ t := by
  obtain ⟨placing, -, rfl⟩ := h
  simp

theorem not_inside_of_placed (placed : ∀ e ∈ t, e.request.places) : ¬ Inside t := by
  rintro ⟨⟨e, he, domains, lock⟩, -⟩
  obtain ⟨host, place⟩ := placed e he
  cases lock.symm.trans place

theorem Looked.inside {answer : (readAsk domains).Answer} (h : Looked domains answer t)
    {u : Transcript} (more : ∀ e ∈ u, e.request ≠ .unlock) : Inside (t ++ u) := by
  have requests := h.requests
  obtain ⟨placing, placed, rfl⟩ := h
  refine ⟨⟨⟨.lock domains, ()⟩, by simp, domains, rfl⟩, fun e he unlock => ?_⟩
  rcases List.mem_append.mp he with he | he
  · obtain ⟨host, place⟩ | lock | rfl := requests e he
    · cases unlock.symm.trans place
    · cases unlock.symm.trans lock
    · cases unlock
  · exact more e he unlock

theorem inside_snoc {e : Event Ask Ask.Answer} (h : Inside (t ++ [e]))
    (notLock : ∀ domains, e.request ≠ .lock domains) : Inside t := by
  obtain ⟨⟨d, hd, domains, lock⟩, locked⟩ := h
  refine ⟨⟨d, ?_, domains, lock⟩, fun e he => locked e (List.mem_append_left _ he)⟩
  rcases List.mem_append.mp hd with hd | hd
  · exact hd
  · rw [List.mem_singleton.mp hd] at lock
    exact absurd lock (notLock domains)

theorem Inside.snoc (h : Inside t) {e : Event Ask Ask.Answer}
    (notUnlock : e.request ≠ .unlock) : Inside (t ++ [e]) := by
  obtain ⟨⟨d, hd, lock⟩, locked⟩ := h
  refine ⟨⟨d, List.mem_append_left _ hd, lock⟩, fun e he => ?_⟩
  rcases List.mem_append.mp he with he | he
  · exact locked e he
  · rw [List.mem_singleton.mp he]
    exact notUnlock

theorem Ask.works.ne_unlock {q : Ask} (h : q.works) : q ≠ .unlock := by
  rintro rfl
  exact h

theorem Ask.works.ne_cache {q : Ask} (h : q.works) (a : Cache.Ask) : q ≠ .call (.cache a) := by
  rintro rfl
  exact h

/-- An enrollment that asks for something places hosts, waits, or has its locks. -/
theorem Progress.asks {q : Ask} {next : q.Answer → Flow Response}
    (p : Progress s r domains t (.ask q next)) :
    ((∀ e ∈ t, e.request.places) ∧ (q.places ∨ q = .lock domains)) ∨ Inside t := by
  cases p with
  | placing placed => exact .inl ⟨placed, .inl ⟨_, rfl⟩⟩
  | waiting placed => exact .inl ⟨placed, .inr rfl⟩
  | looking placed =>
    refine .inr ⟨⟨⟨.lock domains, ()⟩, by simp, domains, rfl⟩, fun e he unlock => ?_⟩
    rcases List.mem_append.mp he with he | he
    · obtain ⟨host, place⟩ := placed e he
      cases unlock.symm.trans place
    · rw [List.mem_singleton.mp he] at unlock
      cases unlock
  | served looked hit ending =>
    cases ending with
    | returning => exact .inr (looked.inside (by simp))
  | working looked miss work => exact .inr (looked.inside fun e he => (work e he).ne_unlock)
  | storing c looked miss work => exact .inr (looked.inside fun e he => (work e he).ne_unlock)
  | stored looked miss work begun written ending =>
    cases ending with
    | returning =>
      refine .inr (looked.inside fun e he => ?_)
      rcases List.mem_append.mp he with he | he
      · exact (work e he).ne_unlock
      · rw [List.mem_singleton.mp he]
        simp [writeAsk]
  | failed looked miss work begun ending =>
    cases ending with
    | returning =>
      rw [List.append_nil]
      exact .inr (looked.inside fun e he => (work e he).ne_unlock)

/-- An enrollment that waits for locks waits for those of its set, and had none before. -/
theorem Progress.waits {other : DomainSet} {next : Unit → Flow Response}
    (p : Progress s r domains t (.ask (.lock other) next)) :
    other = domains ∧ (∀ e ∈ t, e.request.places) ∧
      .ask (.lock other) next = issueInTurn s r domains := by
  generalize left : (Interaction.ask (.lock other) next : Flow Response) = y at p
  cases p with
  | waiting placed =>
    injection left with lock
    injection lock with same
    exact ⟨same, placed, rfl⟩
  | placing | refused | looking | storing => cases left
  | working looked miss work more => cases left; exact absurd more id
  | served looked hit ending | stored looked miss work begun written ending
  | failed looked miss work begun ending => cases ending <;> cases left

/-- An enrollment that is over has no locks. -/
theorem Progress.done {a : Response} (p : Progress s r domains t (.done a)) : ¬ Inside t := by
  have unlocked : ∀ {t u : Transcript}, ¬ Inside (t ++ (u ++ [⟨.unlock, ()⟩])) :=
    fun inside => inside.2 ⟨.unlock, ()⟩ (by simp) rfl
  generalize left : Interaction.done a = y at p
  cases p with
  | placing | waiting | looking | working | storing => cases left
  | refused placed => exact not_inside_of_placed placed
  | served looked hit ending =>
    cases ending with
    | returning => cases left
    | returned => exact unlocked (u := [])
  | stored looked miss work begun written ending =>
    cases ending with
    | returning => cases left
    | returned => rw [List.append_cons]; exact unlocked
  | failed looked miss work begun ending =>
    cases ending with
    | returning => cases left
    | returned => exact unlocked

/-- The look into the cache found nothing. -/
def Missed (domains : DomainSet) (t : Transcript) : Prop :=
  ∃ answer, ⟨readAsk domains, answer⟩ ∈ t ∧ found domains answer = none

/-- No certificate was written to the cache. -/
def Unwritten (t : Transcript) : Prop :=
  ∀ e ∈ t, ∀ key text ttl, e.request ≠ .call (.cache (.write key text ttl))

theorem unwritten_of_placed (placed : ∀ e ∈ t, e.request.places) : Unwritten t := by
  intro e he key text ttl written
  obtain ⟨host, place⟩ := placed e he
  cases written.symm.trans place

theorem Looked.unwritten {answer : (readAsk domains).Answer} (h : Looked domains answer t)
    {u : Transcript} (more : Unwritten u) : Unwritten (t ++ u) := by
  intro e he key text ttl written
  rcases List.mem_append.mp he with he | he
  · obtain ⟨host, place⟩ | lock | rfl := h.requests e he
    · cases written.symm.trans place
    · cases written.symm.trans lock
    · cases written
  · exact more e he key text ttl written

theorem unwritten_of_works (work : ∀ e ∈ t, e.request.works) : Unwritten t :=
  fun e he _ _ _ => (work e he).ne_cache _

theorem Ending.unwritten {result : Except String Issued} {u : Transcript}
    (h : Ending result u y) : Unwritten u := by
  intro e he key text ttl written
  cases written.symm.trans (h.requests e he)

theorem Unwritten.append {u : Transcript} (first : Unwritten t) (second : Unwritten u) :
    Unwritten (t ++ u) := by
  intro e he
  rcases List.mem_append.mp he with he | he
  · exact first e he
  · exact second e he

/-- The cache is asked for the certificate first, and a certificate is written to it at
most once, after nothing was found. -/
theorem Progress.cache {a : Cache.Ask} {next : a.Answer → Flow Response}
    (p : Progress s r domains t (.ask (.call (.cache a)) next)) :
    a = .read (entryKey domains) ∨
      (∃ c : Issued, a = .write (entryKey domains) c.text s.cache.ttl) ∧
        Missed domains t ∧ Unwritten t := by
  generalize left : (Interaction.ask (Ask.call (.cache a)) next : Flow Response) = y at p
  cases p with
  | placing | refused | waiting => cases left
  | looking placed next =>
    cases left
    exact .inl rfl
  | working looked miss work more => cases left; exact absurd more id
  | storing c looked miss work begun next =>
    cases left
    exact .inr ⟨⟨c, rfl⟩, ⟨_, List.mem_append_left _ looked.read, miss⟩,
      looked.unwritten (unwritten_of_works work)⟩
  | served looked hit ending | stored looked miss work begun written ending
  | failed looked miss work begun ending => cases ending <;> cases left

theorem text_injective {c d : Issued} (h : c.text = d.text) : c = d := by
  have back := decodeEntry_text ⟨[], .nil⟩ c
  rw [h, decodeEntry_text] at back
  exact (Except.ok.inj back).symm

/-- An enrollment that wrote a certificate to the cache gives just that. -/
theorem Progress.wrote (p : Progress s r domains t y) {e : Event Ask Ask.Answer} (he : e ∈ t)
    {key text : String} {ttl : Nat} (h : e.request = .call (.cache (.write key text ttl))) :
    ∃ c : Issued, e.request = writeAsk s domains c ∧ Gives (.ok c) y := by
  have unlike : ∀ {t : Transcript}, Unwritten t → e ∉ t :=
    fun unwritten he => unwritten e he key text ttl h
  cases p with
  | placing placed | refused placed | waiting placed =>
    exact absurd he (unlike (unwritten_of_placed placed))
  | looking placed =>
    exact absurd he (unlike ((unwritten_of_placed placed).append (by simp [Unwritten])))
  | served looked hit ending => exact absurd he (unlike (looked.unwritten ending.unwritten))
  | working looked miss work | storing c looked miss work =>
    exact absurd he (unlike (looked.unwritten (unwritten_of_works work)))
  | @stored _ _ _ _ _ c looked miss work begun written ending =>
    refine ⟨c, ?_, ending.gives⟩
    rcases List.mem_append.mp he with he | he
    · exact absurd (List.mem_append_left [] he) (unlike (looked.unwritten (by simp [Unwritten])))
    rcases List.mem_append.mp he with he | he
    · exact absurd he (unlike (unwritten_of_works work))
    rcases List.mem_cons.mp he with rfl | he
    · rfl
    · exact absurd he (unlike ending.unwritten)
  | failed looked miss work begun ending =>
    exact absurd he (unlike
      (looked.unwritten ((unwritten_of_works work).append ending.unwritten)))

theorem ofResult_injective {a b : Except String Issued}
    (h : Response.ofResult a = Response.ofResult b) : a = b := by
  cases a with
  | error e =>
    cases b with
    | error e' => cases h; rfl
    | ok d => cases h
  | ok c =>
    cases b with
    | error e => cases h
    | ok d =>
      obtain ⟨bundle, raw⟩ := c
      obtain ⟨bundle', raw'⟩ := d
      cases h
      rfl

theorem Gives.unique {a b : Except String Issued} (first : Gives a y) (second : Gives b y) :
    a = b := by
  refine ofResult_injective ?_
  rcases first with rfl | rfl
  · rcases second with same | same
    · injection same with _ same
      exact Interaction.done.inj (congrFun same ())
    · cases same
  · rcases second with same | same
    · cases same
    · exact Interaction.done.inj same

theorem Gives.unlocks {result : Except String Issued} {q : Ask} {next : q.Answer → Flow Response}
    (h : Gives result (.ask q next)) : q = .unlock := by
  rcases h with same | same
  · injection same
  · cases same

theorem Looked.not_works {answer : (readAsk domains).Answer} (h : Looked domains answer t) :
    ∀ e ∈ t, ¬ e.request.works := by
  intro e he work
  obtain ⟨host, place⟩ | lock | rfl := h.requests e he
  · rw [place] at work
    exact work
  · rw [lock] at work
    exact work
  · exact work

theorem Ending.not_works {result : Except String Issued} {u : Transcript} (h : Ending result u y) :
    ∀ e ∈ u, ¬ e.request.works := by
  intro e he work
  rw [h.requests e he] at work
  exact work

/-- An enrollment that gives a certificate it has worked on has written it to the cache. -/
theorem Progress.issued {c : Issued} (p : Progress s r domains t y) (gives : Gives (.ok c) y)
    {e : Event Ask Ask.Answer} (he : e ∈ t) (work : e.request.works) :
    ∃ e ∈ t, e.request = writeAsk s domains c := by
  cases p with
  | placing placed | waiting placed | looking placed | storing => cases gives.unlocks
  | working looked miss work' more => exact absurd gives.unlocks more.ne_unlock
  | refused placed message =>
    have failed : Gives (.error message) (.done (.failed message)) := .inr rfl
    cases failed.unique gives
  | served looked hit ending =>
    rcases List.mem_append.mp he with he | he
    · exact absurd work (looked.not_works e he)
    · exact absurd work (ending.not_works e he)
  | stored looked miss work' begun written ending =>
    cases ending.gives.unique gives
    exact ⟨⟨writeAsk s domains c, written⟩, by simp, rfl⟩
  | failed looked miss work' begun ending => cases ending.gives.unique gives

theorem Looked.answer {a b : (readAsk domains).Answer} (h : Looked domains a t)
    (read : ⟨readAsk domains, b⟩ ∈ t) : b = a := by
  obtain ⟨host, place⟩ | lock | same := h.requests _ read
  · cases place
  · cases lock
  · cases same
    rfl

/-- Once the cache gave a certificate, that is the result, and nothing was done for it. If
it gave none, work is what comes next. -/
theorem Progress.read {answer : (readAsk domains).Answer} (p : Progress s r domains t y)
    (read : ⟨readAsk domains, answer⟩ ∈ t) :
    (∃ c, found domains answer = some c ∧ Gives (.ok c) y ∧ ∀ e ∈ t, ¬ e.request.works) ∨
      found domains answer = none := by
  have placed_not : (∀ e ∈ t, e.request.places) → False := by
    intro placed
    obtain ⟨host, place⟩ := placed _ read
    cases place
  have works_not : ∀ {u : Transcript}, (∀ e ∈ u, e.request.works) →
      ⟨readAsk domains, answer⟩ ∉ u := fun work he => (work _ he).ne_cache _ rfl
  cases p with
  | placing placed | refused placed | waiting placed => exact (placed_not placed).elim
  | looking placed =>
    rcases List.mem_append.mp read with read | read
    · obtain ⟨host, place⟩ := placed _ read
      cases place
    · cases List.mem_singleton.mp read
  | served looked hit ending =>
    rcases List.mem_append.mp read with read | read
    · obtain rfl := looked.answer read
      refine .inl ⟨_, hit, ending.gives, fun e he => ?_⟩
      rcases List.mem_append.mp he with he | he
      · exact looked.not_works e he
      · exact ending.not_works e he
    · cases ending.requests _ read
  | working looked miss work | storing c looked miss work =>
    rcases List.mem_append.mp read with read | read
    · exact .inr (looked.answer read ▸ miss)
    · exact absurd read (works_not work)
  | stored looked miss work begun written ending =>
    rcases List.mem_append.mp read with read | read
    · exact .inr (looked.answer read ▸ miss)
    · rcases List.mem_append.mp read with read | read
      · exact absurd read (works_not work)
      · rcases List.mem_cons.mp read with same | read
        · cases same
        · cases ending.requests _ read
  | failed looked miss work begun ending =>
    rcases List.mem_append.mp read with read | read
    · exact .inr (looked.answer read ▸ miss)
    · rcases List.mem_append.mp read with read | read
      · exact absurd read (works_not work)
      · cases ending.requests _ read

end CertEnrollment.Enrollment
