import CertEnrollment.Proofs.Enrollment.Confinement
import CertEnrollment.Proofs.Enrollment.Orders

/-!
# Faults of the configuration

An enrollment places the names of its request before anything else, so a name that lies in no
zone is noticed in time. But the records are for the hosts of the challenges, which the authority
names, and the backend of a zone is made when its first record is created. What the configuration
lacks for these hosts is noticed only then, when a certificate was already ordered and other
records may stand. Deletions notice nothing new.
-/
namespace CertEnrollment.Enrollment
open Authority Cache Dns Interaction

/-! ## The DNS side of a handler -/

namespace Handler

/-- A handler starts with nothing to remember and may have answered any calls since, whatever the
world answered it. -/
inductive Reached (h : Handler) : Memory → Prop
  | fresh : Reached h .fresh
  | after {memory memory' : Memory} {c : Call} {answer : c.Answer} {u : List (Event Ask Ask.Answer)}
      (earlier : Reached h memory) (run : Runs ((h.respond c).run memory) u (answer, memory')) :
      Reached h memory'

/-- The requests to the DNS side have answers of the handler. Between them it may have answered
others, also those of other enrollments. -/
def AnswersDns (h : Handler) (t : Transcript) : Prop :=
  ∀ (c : Call) answer, ⟨.call c, answer⟩ ∈ t → ¬ (Enrollment.Ask.call c).sparesDns →
    ∃ memory u memory', h.Reached memory ∧ Runs ((h.respond c).run memory) u (answer, memory')

variable {h : Handler} {memory memory' : Memory} {u : List (Event Ask Ask.Answer)}
  {t : Transcript} {host target : String} {answer : Except Dns.Error Unit}

theorem runs_onClient {α : Type} {x : ClientAction α} {result : Except Authority.Error α}
    (run : Runs ((onClient x).run memory) u (result, memory')) : memory' = memory := by
  obtain ⟨_, _, _, -, -, last⟩ := runs_bind.mp run
  exact (Prod.mk.inj (runs_done.mp last).2).2

theorem runs_onCacheStore {a : Cache.Ask} {result : a.Answer}
    (run : Runs (h.onCacheStore a memory) u (result, memory')) :
    memory'.router = memory.router := by
  unfold onCacheStore at run
  split at run
  · obtain ⟨_, _, _, -, -, last⟩ := runs_bind.mp run
    obtain ⟨-, rfl⟩ := Prod.mk.inj (runs_done.mp last).2
    rfl
  · obtain ⟨_, _, _, -, -, last⟩ := runs_bind.mp run
    obtain ⟨-, rfl⟩ := Prod.mk.inj (runs_done.mp last).2
    rfl

/-- What the router does leaves its own memory, and nothing else of the handler changes. -/
theorem runs_onRouter {α : Type} {x : Router.Action α} {result : Except Dns.Error α}
    (run : Runs ((onRouter x).run memory) u (result, memory')) :
    ∃ v, Runs (x.run.run memory.router) v (result, memory'.router) := by
  obtain ⟨_, _, ⟨result', router⟩, -, inside, last⟩ := runs_bind.mp run
  obtain ⟨rfl, rfl⟩ := Prod.mk.inj (runs_done.mp last).2
  exact exists_runs_of_runWith inside

/-- Every call leaves the router as it was, or has it do an operation. -/
theorem Reached.router (reached : h.Reached memory) : h.router.Reached memory.router := by
  induction reached with
  | fresh => exact .start false
  | @after memory memory' c answer u earlier run ih =>
    have unchanged (same : memory'.router = memory.router) : h.router.Reached memory'.router :=
      same ▸ ih
    have operated (op : Operation) {result : Except Dns.Error Unit}
        (run : Runs ((onRouter (op.action h.router)).run memory) u (result, memory')) :
        h.router.Reached memory'.router := by
      obtain ⟨v, inside⟩ := runs_onRouter run
      exact .after ih inside
    cases c with
    | place host =>
      obtain ⟨-, same⟩ := runs_done.mp run
      exact unchanged (congrArg (·.2.router) same)
    | cache a => exact unchanged (runs_onCacheStore run)
    | create names pem days => exact unchanged (congrArg _ (runs_onClient run))
    | check id => exact unchanged (congrArg _ (runs_onClient run))
    | get id => exact unchanged (congrArg _ (runs_onClient run))
    | download id => exact unchanged (congrArg _ (runs_onClient run))
    | createRecord host target => exact operated (.create host target) run
    | deleteRecord host => exact operated (.delete host) run

theorem AnswersDns.placed (answers : h.AnswersDns t) (he : ⟨.call (.place host), answer⟩ ∈ t) :
    answer = (h.router.verify host).map fun _ => () := by
  obtain ⟨memory, u, memory', -, run⟩ := answers _ _ he id
  obtain ⟨-, same⟩ := runs_done.mp run
  exact (Prod.mk.inj same).1

theorem AnswersDns.operated (answers : h.AnswersDns t)
    {x : Event Enrollment.Ask Enrollment.Ask.Answer} {op : Operation} (hx : x ∈ t)
    (asked : Event.operation? x = some (op, answer)) :
    ∃ memory v memory', h.router.Reached memory ∧
      Runs ((op.action h.router).run.run memory) v (answer, memory') := by
  unfold Event.operation? at asked
  split at asked
  · cases asked
    obtain ⟨memory, u, memory', reached, run⟩ := answers _ _ hx id
    obtain ⟨v, inside⟩ := runs_onRouter run
    exact ⟨_, v, _, reached.router, inside⟩
  · cases asked
    obtain ⟨memory, u, memory', reached, run⟩ := answers _ _ hx id
    obtain ⟨v, inside⟩ := runs_onRouter run
    exact ⟨_, v, _, reached.router, inside⟩
  · cases asked

/-- When the configuration is at fault for the host of an operation, the answer says so, and
otherwise it does not put it down to that. -/
theorem AnswersDns.fault_or_blameless (answers : h.AnswersDns t)
    {x : Event Enrollment.Ask Enrollment.Ask.Answer} {op : Operation} (hx : x ∈ t)
    (asked : Event.operation? x = some (op, answer)) :
    (∃ e, h.router.fault? op.host = some e ∧ answer = .error e) ∨
      (h.router.fault? op.host = none ∧ Blameless answer) := by
  obtain ⟨memory, v, memory', reached, run⟩ := answers.operated hx asked
  obtain ⟨e, fault, -, failed, -⟩ | ⟨faultless, blameless, -⟩ :=
    Operation.fault_or_blameless reached.sound run
  · exact .inl ⟨e, fault, failed⟩
  · exact .inr ⟨faultless, blameless⟩

/-- A handler asks for nothing to say that the configuration is at fault for a host. -/
theorem runs_of_fault {e : Dns.Error} (reached : h.Reached memory)
    (fault : h.router.fault? host = some e) :
    Runs ((h.respond (.createRecord host target)).run memory) [] (.error e, memory) := by
  have silent : ((Operation.create host target).action h.router).run.run memory.router =
      .done (.error e, memory.router) := Operation.run_of_fault reached.router.sound fault
  change Runs (onRouter ((Operation.create host target).action h.router) memory) [] _
  rw [onRouter, silent]
  exact .done _

end Handler

/-! ## Faults in time -/

/-- The error that a request to the DNS side failed with. -/
def Event.dnsError? : Event Ask Ask.Answer → Option Dns.Error
  | ⟨.call (.place _), .error e⟩ => some e
  | ⟨.call (.createRecord _ _), .error e⟩ => some e
  | ⟨.call (.deleteRecord _), .error e⟩ => some e
  | _ => none

/-- The authority was not called, and no record was to be changed. -/
def Untouched (t : Transcript) : Prop :=
  ∀ x ∈ t, x.request.isAuthority = false ∧ x.request.keepsRecords

/-- Where the DNS side failed because of the configuration, nothing had been touched before. -/
def FaultsFirst (t : Transcript) : Prop :=
  ∀ before x after e, t = before ++ x :: after → Event.dnsError? x = some e →
    e.isConfigError = true → Untouched before

/-- What the configuration lacks when a request to the DNS side fails because of it, and what
came before the request. -/
inductive FaultSource (h : Handler) (csr : List UInt8) (before : Transcript) (e : Dns.Error) :
    Ask → Prop
  /-- A name of the request cannot be placed, and only other names were placed before. -/
  | name {host : String} {r : SigningRequest} (parsed : SigningRequest.parse csr = .ok r)
      (listed : host ∈ r.names) (unplaced : h.router.verify host = .error e)
      (first : ∀ x ∈ before, x.request.places) : FaultSource h csr before e (.call (.place host))
  /-- The host of a challenge cannot be placed. -/
  | host {host target : String} (challenged : Challenged before host target)
      (unplaced : h.router.verify host = .error e) :
      FaultSource h csr before e (.call (.createRecord host target))
  /-- The zone of a challenge has no backend. -/
  | backend {host target : String} {parts : HostParts}
      (challenged : Challenged before host target) (placed : h.router.verify host = .ok parts)
      (unserved : h.router.backendOf parts.zone = .error e) :
      FaultSource h csr before e (.call (.createRecord host target))

/-- Which faults of the configuration an enrollment has come upon so far, and when. -/
structure FaultsTraced (config : Config) (h : Handler) (csr : List UInt8) (t : Transcript) :
    Prop where
  /-- Each of them is in a name of the request, or in a challenge when its record is created. -/
  source : ∀ before x after e, t = before ++ x :: after → Event.dnsError? x = some e →
    e.isConfigError = true → FaultSource h csr before e x.request
  /-- None is passed over when a record is created. -/
  shown : ∀ host target answer e, ⟨.call (.createRecord host target), answer⟩ ∈ t →
    h.router.fault? host = some e → answer = .error e
  /-- They come first just when there is none in a challenge whose record was to be created. -/
  first_iff : FaultsFirst t ↔ ∀ host target answer,
    ⟨.call (.createRecord host target), answer⟩ ∈ t → h.router.fault? host = none
  /-- So they do where all zones have backends and all challenges lie in the zones. -/
  complete : (∀ z ∈ config.zones, ∃ b, h.router.backendOf z = .ok b) →
    (∀ host target, Challenged t host target → ∃ parts, resolve config.zones host = .ok parts) →
    FaultsFirst t

variable {config : Config} {h : Handler} {csr : List UInt8} {t before after : Transcript}
  {x : Event Ask Ask.Answer} {e : Dns.Error} {host target : String}

theorem Event.eq_of_dnsError (failed : Event.dnsError? x = some e) :
    (∃ host, x = ⟨.call (.place host), .error e⟩) ∨
      (∃ host target, x = ⟨.call (.createRecord host target), .error e⟩) ∨
      ∃ host, x = ⟨.call (.deleteRecord host), .error e⟩ := by
  unfold Event.dnsError? at failed
  split at failed
  · cases failed
    exact .inl ⟨_, rfl⟩
  · cases failed
    exact .inr (.inl ⟨_, _, rfl⟩)
  · cases failed
    exact .inr (.inr ⟨_, rfl⟩)
  · cases failed

theorem untouched_of_places (places : ∀ x ∈ t, x.request.places) : Untouched t := by
  intro x hx
  obtain ⟨host, same⟩ := places x hx
  rw [same]
  exact ⟨rfl, trivial⟩

/-- Challenges are known only after the authority was called. -/
theorem Challenged.touched (challenged : Challenged t host target) : ¬ Untouched t := by
  intro untouched
  obtain ⟨names, pem, days, c, created, -⟩ := challenged
  cases (untouched _ created).1

/-- What is at fault for the host of a challenge. -/
theorem source_of_fault (challenged : Challenged before host target)
    (fault : h.router.fault? host = some e) :
    FaultSource h csr before e (.call (.createRecord host target)) := by
  rw [Router.fault?] at fault
  split at fault
  · next unplaced =>
    cases fault
    exact .host challenged unplaced
  · next placed =>
    split at fault
    · next unserved =>
      cases fault
      exact .backend challenged placed unserved
    · cases fault

theorem FaultSource.fault
    (source : FaultSource h csr before e (.call (.createRecord host target))) :
    h.router.fault? host = some e := by
  cases source with
  | host challenged unplaced => simp [Router.fault?, unplaced]
  | backend challenged placed unserved => simp [Router.fault?, placed, unserved]

/-- Deletions notice nothing: each one follows a creation that succeeded. -/
theorem faultless_of_provided (answers : h.AnswersDns t) (provided : Provided t host) :
    h.router.fault? host = none := by
  obtain ⟨target, -, made⟩ := provided
  obtain ⟨e, -, failed⟩ | ⟨faultless, -⟩ := answers.fault_or_blameless made rfl
  · cases failed
  · exact faultless

theorem source_of_due (answers : h.AnswersDns t) (split : t = before ++ x :: after)
    (due : DnsDue csr before x.request) (failed : Event.dnsError? x = some e)
    (blamed : e.isConfigError = true) : FaultSource h csr before e x.request := by
  have here : x ∈ t := split ▸ List.mem_append_right _ List.mem_cons_self
  have earlier : before ⊆ t := split ▸ List.subset_append_left _ _
  obtain ⟨host, rfl⟩ | ⟨host, target, rfl⟩ | ⟨host, rfl⟩ := Event.eq_of_dnsError failed
  · obtain ⟨⟨r, parsed, listed⟩, first⟩ := due
    have answer := answers.placed here
    cases placed : h.router.verify host with
    | ok parts => cases placed ▸ answer
    | error e' =>
      cases placed ▸ answer
      exact .name parsed listed placed first
  · obtain ⟨e', fault, same⟩ | ⟨-, blameless⟩ := answers.fault_or_blameless here rfl
    · cases same
      exact source_of_fault due fault
    · cases blamed.symm.trans (blameless e rfl)
  · obtain ⟨e', fault, -⟩ | ⟨-, blameless⟩ := answers.fault_or_blameless here rfl
    · cases fault.symm.trans (faultless_of_provided answers (due.mono earlier))
    · cases blamed.symm.trans (blameless e rfl)

theorem challenged_of_created {s : Setup} {y : Flow (Except String Issued)}
    (going : Becomes (issue s csr).run t y) {answer : Except Dns.Error Unit}
    (asked : ⟨.call (.createRecord host target), answer⟩ ∈ t) :
    ∃ before after, t = before ++ ⟨.call (.createRecord host target), answer⟩ :: after ∧
      Challenged before host target := by
  obtain ⟨before, after, split⟩ := List.append_of_mem asked
  exact ⟨before, after, split, dnsDue_issue.due_of_becomes going split⟩

/-- No fault is passed over when a record is created. -/
theorem answer_of_fault (answers : h.AnswersDns t) {answer : Except Dns.Error Unit}
    (asked : ⟨.call (.createRecord host target), answer⟩ ∈ t)
    (fault : h.router.fault? host = some e) : answer = .error e := by
  obtain ⟨e', fault', failed⟩ | ⟨faultless, -⟩ := answers.fault_or_blameless asked rfl
  · cases fault.symm.trans fault'
    exact failed
  · cases fault.symm.trans faultless

/-- Faults in challenges are what comes late, and nothing else does. -/
theorem faultsFirst_iff {s : Setup} {y : Flow (Except String Issued)}
    (going : Becomes (issue s csr).run t y) (answers : h.AnswersDns t) :
    FaultsFirst t ↔ ∀ host target answer, ⟨.call (.createRecord host target), answer⟩ ∈ t →
      h.router.fault? host = none := by
  constructor
  · intro first host target answer asked
    obtain ⟨before, after, split, challenged⟩ := challenged_of_created going asked
    refine Option.eq_none_iff_forall_ne_some.mpr fun e fault => ?_
    obtain rfl := answer_of_fault answers asked fault
    have untouched := first before _ after e split rfl (Router.isConfigError_of_fault fault)
    exact challenged.touched untouched
  · intro faultless before x after e split failed blamed
    have due := dnsDue_issue.due_of_becomes going split
    have source := source_of_due answers split due failed blamed
    have here : x ∈ t := split ▸ List.mem_append_right _ List.mem_cons_self
    obtain ⟨host, rfl⟩ | ⟨host, target, rfl⟩ | ⟨host, rfl⟩ := Event.eq_of_dnsError failed
    · cases source with
      | name parsed listed unplaced first => exact untouched_of_places first
    · cases source.fault.symm.trans (faultless host target _ here)
    · cases source

/-- Whatever the authority and the stores answer, an enrollment comes upon the faults of the
configuration in the names of its request before anything else, but upon those in its challenges
only when their records are created. -/
theorem faults_traced {y : Flow (Except String Issued)} (made : Handler.ofConfig config = .ok h)
    (going : Becomes (issue h.setup csr).run t y) (answers : h.AnswersDns t) :
    FaultsTraced config h csr t := by
  have first_iff := faultsFirst_iff going answers
  refine ⟨fun before x after e split => ?_, fun host target answer e => answer_of_fault answers,
    first_iff, fun equipped placeable => first_iff.mpr ?_⟩
  · exact source_of_due answers split (dnsDue_issue.due_of_becomes going split)
  · intro host target answer asked
    obtain ⟨before, after, split, challenged⟩ := challenged_of_created going asked
    have earlier : before ⊆ t := split ▸ List.subset_append_left _ _
    obtain ⟨parts, placed⟩ := placeable host target (challenged.mono earlier)
    obtain ⟨b, served⟩ := equipped parts.zone (decomposition_of_resolve placed).configured
    rw [← Handler.zones_of_ofConfig made] at placed
    exact Router.fault?_eq_none_iff.mpr ⟨parts, b, placed, served⟩

/-! ## A zone without its backend -/

/-- The zone `org` is to be served by the provider, which has no section. -/
def unservedConfig : Config :=
  { orgConfig with zoneEntries := .ofList [("org", .table "" (some .namecom))] }

def unservedHandler : Handler where
  client := orgHandler.client
  router := ⟨unservedConfig.zones, unservedConfig.options, .coredns⟩
  setup := orgHandler.setup
  cacheServer := none

theorem made_unservedHandler : Handler.ofConfig unservedConfig = .ok unservedHandler := rfl

/-- A draft with one challenge. -/
def oneChallenge : Certificate :=
  { threeChallenges with
    validation := some ⟨⟨[("a.org", ⟨some "_x.org", some "ca.net", none⟩)], by
      simp [Data.Increasing]⟩⟩ }

/-- What is asked for until the record of the challenge cannot be created. -/
def lateFault (r : SigningRequest) : Transcript :=
  [⟨.call (.place "a.org"), .ok ()⟩, ⟨.lock (.ofNames r.names), ()⟩,
    ⟨readAsk (.ofNames r.names), .ok none⟩, ⟨.call (.create r.names r.pem 90), .ok oneChallenge⟩,
    ⟨.call (.createRecord "_x.org" "ca.net"), .error (.optionsMissing "namecom" "org")⟩,
    ⟨.unlock, ()⟩]

theorem fault_unservedHandler :
    unservedHandler.router.fault? "_x.org" = some (.optionsMissing "namecom" "org") := by
  decide +kernel

/-- The name of the request is placed, and its challenge has no backend. -/
theorem answersDns_lateFault (r : SigningRequest) : unservedHandler.AnswersDns (lateFault r) := by
  have placeable : Placeable unservedHandler.router.zones ["a.org"] :=
    placeable_of_all (by decide +kernel)
  obtain ⟨parts, placed⟩ := placeable "a.org" List.mem_cons_self
  intro c answer he asked
  simp only [lateFault, List.mem_cons, List.not_mem_nil, or_false] at he
  rcases he with same | same | same | same | same | same
  · cases same
    exact ⟨.fresh, [], .fresh, .fresh, Handler.runs_of_placed placed .fresh⟩
  · cases same
  · cases same
    exact absurd trivial asked
  · cases same
    exact absurd trivial asked
  · cases same
    exact ⟨.fresh, [], .fresh, .fresh, Handler.runs_of_fault .fresh fault_unservedHandler⟩
  · cases same

theorem runs_lateFault {r : SigningRequest}
    (parsed : SigningRequest.parse SigningRequest.oneDomain = .ok r) (names : r.names = ["a.org"]) :
    ∃ message, Runs (issue unservedHandler.setup SigningRequest.oneDomain).run (lateFault r)
      (.error message) := by
  have placing : Runs (placeAll r.names).run [⟨.call (.place "a.org"), .ok ()⟩] (.ok ()) := by
    rw [names]
    exact .ask _ (.done _)
  have running : Runs (run unservedHandler.setup r).run
      [⟨.call (.create r.names r.pem 90), .ok oneChallenge⟩,
        ⟨.call (.createRecord "_x.org" "ca.net"), .error (.optionsMissing "namecom" "org")⟩]
      (.error _) :=
    .ask _ (.ask _ (.done _))
  exact ⟨_, runs_issue_of_run parsed placing rfl running⟩

/-- The fault of the configuration is in a challenge, and the enrollment comes upon it late. -/
theorem faults_traced_unserved :
    ∃ t message, Handler.ofConfig unservedConfig = .ok unservedHandler ∧
      Becomes (issue unservedHandler.setup SigningRequest.oneDomain).run t
        (.done (.error message)) ∧ unservedHandler.AnswersDns t ∧
      FaultsTraced unservedConfig unservedHandler SigningRequest.oneDomain t := by
  obtain ⟨r, parsed, names⟩ := SigningRequest.parse_oneDomain
  obtain ⟨message, run⟩ := runs_lateFault parsed names
  have going := becomes_of_runs run
  have answers := answersDns_lateFault r
  exact ⟨lateFault r, message, made_unservedHandler, going, answers,
    faults_traced made_unservedHandler going answers⟩

/-- A certificate was created before the enrollment fails because of the configuration. -/
theorem fault_after_order :
    ∃ t message, Handler.ofConfig unservedConfig = .ok unservedHandler ∧
      Runs (issue unservedHandler.setup SigningRequest.oneDomain).run t (.error message) ∧
      unservedHandler.AnswersDns t ∧ ¬ FaultsFirst t := by
  obtain ⟨r, parsed, names⟩ := SigningRequest.parse_oneDomain
  obtain ⟨message, run⟩ := runs_lateFault parsed names
  refine ⟨lateFault r, message, made_unservedHandler, run, answersDns_lateFault r, fun first => ?_⟩
  have untouched : Untouched [⟨.call (.place "a.org"), .ok ()⟩, ⟨.lock (.ofNames r.names), ()⟩,
      ⟨readAsk (.ofNames r.names), .ok none⟩,
      ⟨.call (.create r.names r.pem 90), .ok oneChallenge⟩] := first _ _ _ _ rfl rfl rfl
  have created := (untouched ⟨.call (.create r.names r.pem 90), .ok oneChallenge⟩ (by simp)).1
  cases created

end CertEnrollment.Enrollment
