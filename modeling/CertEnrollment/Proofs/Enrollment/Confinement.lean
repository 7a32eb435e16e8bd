import CertEnrollment.Proofs.Dns.Operations
import CertEnrollment.Proofs.Enrollment.Challenges
import CertEnrollment.Proofs.Enrollment.FirstFailure
import CertEnrollment.Proofs.Enrollment.Protocol
import CertEnrollment.Proofs.Enrollment.StoreRestored

/-!
# Changes stay with the challenges

The authority names the hosts of its challenges, and they need not be those of the request. The
router places each of them anew when a record is created and when it is deleted, so whatever the
authority answers, all that an enrollment changes are the records of challenge hosts that lie in
the configured zones. Any other challenge host makes the enrollment fail, and nothing is asked for
it.
-/
namespace CertEnrollment.Dns
open Store Text

/-! ## Parts of a host -/

/-- A host cut into its first label, its branch and a configured zone that allows the branch. No
other zone that the host lies below has a longer name. -/
structure Decomposition (zones : List Zone) (host : String) (p : HostParts) : Prop where
  configured : p.zone ∈ zones
  spells : normalize host =
    p.subdomain ++ (if p.branch = "" then "" else "." ++ p.branch) ++ "." ++ p.zone.name
  single : p.subdomain ≠ "" ∧ '.' ∉ p.subdomain.toList
  allowed : p.zone.Allows p.branch
  longest : ∀ z ∈ zones, ∀ labels, z.Matches (normalize host) labels →
    z.name.length ≤ p.zone.name.length

theorem decomposition_of_resolve {zones : List Zone} {host : String} {p : HostParts}
    (h : resolve zones host = .ok p) : Decomposition zones host p := by
  obtain ⟨more, chosen, -, allowed⟩ := chosen_of_resolve h
  exact ⟨chosen.mem, spells_of_resolve h, chosen.above.whole _ List.mem_cons_self, allowed,
    chosen.longest⟩

/-- Key and field of the records of a host with these parts. -/
def HostParts.slot (p : HostParts) : String × String :=
  ((ZoneStore.ofZone p.zone.name).hashKey p.branch, ZoneStore.fieldName p.subdomain)

namespace Router

/-- What may be asked for a challenge whose host has these parts: in a zone of the hash store only
for one field, and in a zone of the hosted provider only for records of the zone, where a new one
is that of the host. -/
def Confines (r : Router) (parts : HostParts) (target : String) : Ask → Prop
  | .connect options => r.options.coredns = some options
  | .store a => r.kindFor parts.zone = .coredns ∧ a.slot = parts.slot
  | .exchange request => r.kindFor parts.zone = .namecom ∧ ∃ p : Provider,
      p.zone = trim parts.zone.name ∧ r.backendOf parts.zone = .ok (.provider p) ∧
      p.Confines (some (Provider.newRecord (Provider.composeHost parts.subdomain parts.branch)
        target)) request

theorem confines_of_permits {r : Router} {parts : HostParts} {host target : String}
    {op : Operation} {q : Ask} (serves : op = .create host target ∨ op = .delete host)
    (permitted : op.Permits r parts q) : r.Confines parts target q := by
  cases q with
  | connect options => exact permitted
  | store a =>
    obtain ⟨s, served, slot⟩ := permitted
    obtain ⟨kind, zone⟩ := kind_of_backendOf served
    have same : s = .ofZone parts.zone.name := by
      cases s
      exact congrArg ZoneStore.mk zone
    subst same
    exact ⟨kind.symm, slot⟩
  | exchange request =>
    obtain ⟨p, served, posts, deletes⟩ := permitted
    obtain ⟨kind, zone⟩ := kind_of_backendOf served
    refine ⟨kind.symm, p, zone, served, fun post => ?_, deletes⟩
    obtain ⟨sent, v, same, body⟩ := posts post
    obtain rfl | rfl := serves
    · exact ⟨sent, v, same, body⟩
    · cases same

end Router

/-- The hash store after these requests. -/
def storeAfter (table : HashTable) (v : List (Event Router.Ask Router.Ask.Answer)) : HashTable :=
  v.foldl (fun table e => match e.request with
    | .store a => (table.respond a).2
    | _ => table) table

theorem get?_respond {table : HashTable} {a : HashAsk} {key field : String}
    (elsewhere : a.slot ≠ (key, field)) :
    (table.respond a).2.get? key field = table.get? key field := by
  cases a with
  | get k f => rfl
  | set k f value =>
    refine (HashTable.get?_set table k f value key field).trans (if_neg ?_)
    rintro ⟨rfl, rfl⟩
    exact elsewhere rfl
  | delete k f =>
    refine (HashTable.get?_delete table k f key field).trans (if_neg ?_)
    rintro ⟨rfl, rfl⟩
    exact elsewhere rfl

/-- A field that no request is about stays as it is. -/
theorem get?_storeAfter {key field : String} {v : List (Event Router.Ask Router.Ask.Answer)}
    (elsewhere : ∀ e ∈ v, ∀ a, e.request = .store a → a.slot ≠ (key, field)) (table : HashTable) :
    (storeAfter table v).get? key field = table.get? key field := by
  induction v generalizing table with
  | nil => rfl
  | cons e v ih =>
    obtain ⟨first, others⟩ := List.forall_mem_cons.mp elsewhere
    refine (ih others _).trans ?_
    dsimp only
    split
    · next a same => exact get?_respond (first a same)
    · rfl

end CertEnrollment.Dns

namespace CertEnrollment.Enrollment
open Authority Cache Dns Interaction

/-! ## The router at work -/

/-- The operation that a request asks the router for. -/
def Ask.operation? : Ask → Option Operation
  | .call (.createRecord host target) => some (.create host target)
  | .call (.deleteRecord host) => some (.delete host)
  | _ => none

/-- An operation of the router and how it ended. -/
def Event.operation? : Event Ask Ask.Answer → Option (Operation × Except Dns.Error Unit)
  | ⟨.call (.createRecord host target), answer⟩ => some (.create host target, answer)
  | ⟨.call (.deleteRecord host), answer⟩ => some (.delete host, answer)
  | _ => none

/-- What the router asks for in the operations of a transcript, one after the other. In between
it may have served others. -/
inductive Routed (router : Router) :
    Transcript → List (Event Router.Ask Router.Ask.Answer) → Prop
  | nil : Routed router [] []
  | skip {e : Event Ask Ask.Answer} {t : Transcript} {v : List (Event Router.Ask Router.Ask.Answer)}
      (other : Event.operation? e = none) (rest : Routed router t v) : Routed router (e :: t) v
  | operate {e : Event Ask Ask.Answer} {t : Transcript} {op : Operation}
      {answer : Except Dns.Error Unit} {memory memory' : Router.Memory}
      {u v : List (Event Router.Ask Router.Ask.Answer)}
      (asked : Event.operation? e = some (op, answer))
      (reached : router.Reached memory)
      (run : Runs ((op.action router).run.run memory) u (answer, memory'))
      (rest : Routed router t v) : Routed router (e :: t) (u ++ v)

/-- What the router has asked for in the operation that is waited for, if there is one. -/
inductive Pending (router : Router) {α : Type} :
    Flow α → List (Event Router.Ask Router.Ask.Answer) → Prop
  | idle (y : Flow α) : Pending router y []
  | busy {request : Ask} {next : request.Answer → Flow α} {op : Operation}
      {memory : Router.Memory} {u : List (Event Router.Ask Router.Ask.Answer)}
      {z : Interaction Router.Ask Router.Ask.Answer (Except Dns.Error Unit × Router.Memory)}
      (asked : request.operation? = some op) (reached : router.Reached memory)
      (going : Becomes ((op.action router).run.run memory) u z) :
      Pending router (.ask request next) u

/-- How an enrollment that has come this far is confined to the challenges of its certificate. -/
structure ChangesConfined (router : Router) (t : Transcript) (y : Flow (Except String Issued))
    (v : List (Event Router.Ask Router.Ask.Answer)) : Prop where
  /-- Whatever the router asked for was for a challenge host that has parts. -/
  bounded : ∀ e ∈ v, ∃ host target parts, Challenged t host target ∧
    Decomposition router.zones host parts ∧ router.Confines parts target e.request
  /-- In the hash store all other fields are as they were before. -/
  elsewhere : ∀ table key field,
    (∀ host target parts, Challenged t host target → Decomposition router.zones host parts →
      router.kindFor parts.zone = .coredns → parts.slot ≠ (key, field)) →
    (storeAfter table v).get? key field = table.get? key field
  /-- For a challenge host without such parts nothing is asked, whatever the router remembers. -/
  untouched : ∀ op : Operation, (∀ parts, ¬ Decomposition router.zones op.host parts) →
    ∀ memory, ∃ e, (op.action router).run.run memory = .done (.error e, memory)
  /-- And with such a challenge the enrollment cannot but fail. -/
  refused : ∀ host target result, Challenged t host target →
    (∀ parts, ¬ Decomposition router.zones host parts) → y = .done result →
    ∃ rest, result = .error ("error while registering dns records " ++ rest)

variable {s : Setup} {csr : List UInt8} {t u : Transcript} {router : Router} {c : Certificate}
  {v : List (Event Router.Ask Router.Ask.Answer)} {result : Except String Issued}
  {host target : String}

/-! ## Whom operations serve -/

theorem serves_of_dnsDue {q : Ask} {op : Operation} (due : DnsDue csr t q)
    (asked : q.operation? = some op) :
    ∃ host target, Challenged t host target ∧ (op = .create host target ∨ op = .delete host) := by
  cases q with
  | call c =>
    cases c with
    | createRecord host target =>
      obtain rfl := Option.some.inj asked
      exact ⟨host, target, due, .inl rfl⟩
    | deleteRecord host =>
      obtain rfl := Option.some.inj asked
      obtain ⟨target, challenged, -⟩ := due
      exact ⟨host, target, challenged, .inr rfl⟩
    | _ => cases asked
  | _ => cases asked

theorem operation?_request {e : Event Ask Ask.Answer} {op : Operation}
    {answer : Except Dns.Error Unit} (asked : Event.operation? e = some (op, answer)) :
    e.request.operation? = some op := by
  unfold Event.operation? at asked
  split at asked
  · cases asked
    rfl
  · cases asked
    rfl
  · cases asked

/-- What an operation asks for that was due in the history. -/
theorem bounded_of_becomes {q : Ask} {op : Operation} {memory : Router.Memory}
    {z : Interaction Router.Ask Router.Ask.Answer (Except Dns.Error Unit × Router.Memory)}
    (due : DnsDue csr u q) (later : u ⊆ t) (asked : q.operation? = some op)
    (reached : router.Reached memory) (going : Becomes ((op.action router).run.run memory) v z) :
    ∀ e ∈ v, ∃ host target parts, Challenged t host target ∧
      Decomposition router.zones host parts ∧ router.Confines parts target e.request := by
  intro e he
  obtain ⟨host, target, challenged, serves⟩ := serves_of_dnsDue due asked
  obtain ⟨parts, placed, permitted⟩ := Operation.permits_of_becomes reached.sound going e he
  have same : op.host = host := by obtain rfl | rfl := serves <;> rfl
  exact ⟨host, target, parts, challenged.mono later, decomposition_of_resolve (same ▸ placed),
    Router.confines_of_permits serves permitted⟩

theorem Routed.bounded {whole : Transcript} (h : Routed router t v)
    (due : ∀ e ∈ t, ∃ before, before ⊆ whole ∧ DnsDue csr before e.request) :
    ∀ e ∈ v, ∃ host target parts, Challenged whole host target ∧
      Decomposition router.zones host parts ∧ router.Confines parts target e.request := by
  induction h with
  | nil => simp
  | skip other rest ih => exact ih (List.forall_mem_cons.mp due).2
  | operate asked reached run rest ih =>
    obtain ⟨⟨before, later, here⟩, others⟩ := List.forall_mem_cons.mp due
    refine List.forall_mem_append.mpr ⟨?_, ih others⟩
    exact bounded_of_becomes here later (operation?_request asked) reached (becomes_of_runs run)

/-- The answers to operations are those of the router. -/
theorem Routed.answered (h : Routed router t v) {e : Event Ask Ask.Answer} {op : Operation}
    {answer : Except Dns.Error Unit} (he : e ∈ t) (asked : Event.operation? e = some (op, answer)) :
    ∃ memory u memory', router.Reached memory ∧
      Runs ((op.action router).run.run memory) u (answer, memory') := by
  induction h with
  | nil => cases he
  | skip other rest ih =>
    rcases List.mem_cons.mp he with rfl | he
    · cases other.symm.trans asked
    · exact ih he
  | operate asked' reached run rest ih =>
    rcases List.mem_cons.mp he with rfl | he
    · cases asked'.symm.trans asked
      exact ⟨_, _, _, reached, run⟩
    · exact ih he

/-! ## Challenges without a record -/

/-- The certificate that an event says was created. -/
def Event.created? : Event Ask Ask.Answer → Option Certificate
  | ⟨.call (.create _ _ _), .ok c⟩ => some c
  | _ => none

theorem Calls.created_eq {checks gets downloads : Nat} (calls : Calls c t checks gets downloads)
    {names : List String} {pem : String} {days : Nat} {c' : Certificate}
    (created : ⟨.call (.create names pem days), .ok c'⟩ ∈ t) : c' = c := by
  obtain ⟨names', pem', days', rest, same, asked⟩ := calls
  have listed : (⟨.call (.create names pem days), .ok c'⟩ : Event Ask Ask.Answer) ∈
      authorityCalls t := List.mem_filter.mpr ⟨created, rfl⟩
  rw [same] at listed
  rcases List.mem_cons.mp listed with first | later
  · exact Option.some.inj (congrArg Event.created? first)
  · have among := List.mem_map_of_mem (f := Event.request) later
    rw [asked] at among
    simp [sequence] at among

/-- An enrollment has at most one certificate created. -/
theorem created_unique {y : Flow (Except String Issued)} (h : Becomes (issue s csr).run t y)
    {names names' : List String} {pem pem' : String} {days days' : Nat} {c' : Certificate}
    (created : ⟨.call (.create names pem days), .ok c⟩ ∈ t)
    (created' : ⟨.call (.create names' pem' days'), .ok c'⟩ ∈ t) : c' = c := by
  have sequential : Sequential ([] ++ t) :=
    Sequential.append (.inl rfl) fun before e later split => obeys_issue.due_of_becomes h split
  rw [List.nil_append] at sequential
  have listed : (⟨.call (.create names pem days), .ok c⟩ : Event Ask Ask.Answer) ∈
      authorityCalls t := List.mem_filter.mpr ⟨created, rfl⟩
  rcases sequential with none | ⟨_, _, _, e, failed⟩ | ⟨c₀, _, _, _, calls, -⟩
  · simp [none] at listed
  · rw [failed] at listed
    cases congrArg Event.created? (List.mem_singleton.mp listed)
  · exact (calls.created_eq created').trans (calls.created_eq created).symm

/-- When every record that was tried was made, there is one for each challenge. -/
theorem made_of_complete (complete : Complete c t)
    (tried : creations t = c.challenges.filterMap (·.2.cname?)) {d : String × DomainValidation}
    (hd : d ∈ c.challenges) (challenge : d.2.cname? = some (host, target)) :
    ⟨.call (.createRecord host target), .ok ()⟩ ∈ t := by
  have listed : (host, target) ∈ creations t :=
    tried ▸ List.mem_filterMap.mpr ⟨d, hd, challenge⟩
  obtain ⟨change, changed, same⟩ := List.mem_filterMap.mp listed
  cases change with
  | deletion host made => cases same
  | creation host' target' made =>
    cases same
    cases made with
    | false => exact absurd changed (complete.2 host target)
    | true =>
      obtain ⟨e, he, same⟩ := List.mem_filterMap.mp changed
      unfold Event.recordChange? at same
      split at same
      · next answer =>
        cases answer with
        | error e => cases same
        | ok _ =>
          cases same
          exact he
      · cases same
      · cases same

/-- A run in which the record of a challenge was not made fails, and says so. -/
theorem error_of_unmade {r : SigningRequest} (h : Stages s r t result)
    {names : List String} {pem : String} {days : Nat}
    (created : ⟨.call (.create names pem days), .ok c⟩ ∈ t)
    (unique : ∀ c', ⟨.call (r.creation s), .ok c'⟩ ∈ t → c' = c)
    (needed : c.status.needsValidation = true) {d : String × DomainValidation}
    (hd : d ∈ c.challenges) (challenge : d.2.cname? = some (host, target))
    (unmade : ⟨.call (.createRecord host target), .ok ()⟩ ∉ t) :
    ∃ rest, result = .error ("error while registering dns records " ++ rest) := by
  cases h with
  | notCreated e => cases congrArg Event.created? (List.mem_singleton.mp created)
  | @notProvisioned c₀ u e needed' provisioning =>
    obtain ⟨made, gone, -, -, first, -⟩ := replies_provision provisioning
    obtain ⟨rest, same⟩ := start_of_provisioningFailure first.symm
    exact ⟨rest, congrArg Except.error same⟩
  | @notValidated c₀ records t₁ t₂ e needed' provisioning checks =>
    obtain rfl := unique c₀ List.mem_cons_self
    obtain ⟨tried, ⟨_, -, complete, -⟩ | ⟨_, absurd, -⟩⟩ := runs_provision provisioning
    · have made := made_of_complete complete tried hd challenge
      exact absurd (List.mem_cons_of_mem _ (List.mem_append_left _ made)) unmade
    · cases absurd
  | @polled c₀ records t₁ t₂ t₃ t₄ polled cleaned result prepared polling cleaning ending =>
    obtain rfl := unique c₀ List.mem_cons_self
    obtain ⟨tried, -, -, -, complete⟩ := runs_prepare_ok prepared
    rw [if_pos needed] at tried
    have made := made_of_complete (complete needed).1 tried hd challenge
    exact absurd (List.mem_cons_of_mem _ (List.mem_append_left _ made)) unmade

/-- A certificate is created only in the run of an enrollment. -/
theorem run_of_created (h : Course s csr t result) {e : Event Ask Ask.Answer} (he : e ∈ t)
    (created : Event.created? e = some c) :
    ∃ r u, Runs (run s r).run u result ∧ u ⊆ t ∧ e ∈ u := by
  have apart : ∀ {hosts u placed}, Runs (placeAll hosts).run u placed → e ∉ u := by
    intro hosts u placed placing inside
    obtain ⟨request, answer⟩ := e
    obtain ⟨host, same⟩ := placing.asks (asks_placeAll hosts) _ inside
    cases same
    cases created
  cases h with
  | malformed malformed => cases he
  | refused parsed placing => exact absurd he (apart placing)
  | served parsed placing hit =>
    simp only [List.mem_append, List.mem_cons, List.not_mem_nil, or_false] at he
    rcases he with before | rfl | rfl | rfl
    · exact absurd before (apart placing)
    · cases created
    · cases created
    · cases created
  | @failed r t₁ u message answer parsed placing miss running =>
    refine ⟨r, u, running, fun e he => by simp [he], ?_⟩
    simp only [List.mem_append, List.mem_cons, List.not_mem_nil, or_false] at he
    rcases he with before | rfl | rfl | here | rfl
    · exact absurd before (apart placing)
    · cases created
    · cases created
    · exact here
    · cases created
  | @issued r t₁ u issued answer parsed placing miss running written =>
    refine ⟨r, u, running, fun e he => by simp [he], ?_⟩
    simp only [List.mem_append, List.mem_cons, List.not_mem_nil, or_false] at he
    rcases he with before | rfl | rfl | here | rfl | rfl
    · exact absurd before (apart placing)
    · cases created
    · cases created
    · exact here
    · cases created
    · cases created

/-- An enrollment in which the record of a challenge was not made fails, and says so. -/
theorem issue_error_of_unmade (h : Runs (issue s csr).run t result)
    (challenged : Challenged t host target)
    (unmade : ⟨.call (.createRecord host target), .ok ()⟩ ∉ t) :
    ∃ rest, result = .error ("error while registering dns records " ++ rest) := by
  obtain ⟨names, pem, days, c, created, needed, d, hd, challenge⟩ := challenged
  obtain ⟨r, u, running, inside, here⟩ := run_of_created (course_of_runs h) created rfl
  exact error_of_unmade (stages_of_runs running) here
    (fun _ he => created_unique (becomes_of_runs h) created (inside he)) needed hd challenge
    fun made => unmade (inside made)

/-! ## Confinement -/

/-- At any time, and whatever the authority, the cache, the hash store and the provider answer: an
enrollment changes nothing but the records of challenge hosts in the configured zones. -/
theorem changes_confined {y : Flow (Except String Issued)}
    {w : List (Event Router.Ask Router.Ask.Answer)} (h : Becomes (issue s csr).run t y)
    (routed : Routed router t v) (pending : Pending router y w) :
    ChangesConfined router t y (v ++ w) := by
  have bounded : ∀ e ∈ v ++ w, ∃ host target parts, Challenged t host target ∧
      Decomposition router.zones host parts ∧ router.Confines parts target e.request := by
    have due : ∀ e ∈ t, ∃ before, before ⊆ t ∧ DnsDue csr before e.request := by
      intro e he
      obtain ⟨before, later, rfl⟩ := List.append_of_mem he
      exact ⟨before, List.subset_append_left _ _, dnsDue_issue.due_of_becomes h rfl⟩
    refine List.forall_mem_append.mpr ⟨routed.bounded due, ?_⟩
    cases pending with
    | idle => simp
    | busy asked reached going =>
      have next := (dnsDue_issue.becomes h).1
      exact bounded_of_becomes next (List.Subset.refl t) asked reached going
  refine ⟨bounded, fun table key field others => ?_, fun op outside memory => ?_, ?_⟩
  · refine get?_storeAfter (fun e he a same => ?_) table
    obtain ⟨host, target, parts, challenged, decomposed, confined⟩ := bounded e he
    rw [same] at confined
    obtain ⟨kind, slot⟩ := confined
    exact slot ▸ others host target parts challenged decomposed kind
  · cases placed : router.verify op.host with
    | ok parts => exact absurd (decomposition_of_resolve placed) (outside parts)
    | error e => exact ⟨e, Operation.run_of_unplaced op placed memory⟩
  · rintro host target result challenged outside rfl
    refine issue_error_of_unmade (runs_of_becomes h) challenged fun made => ?_
    obtain ⟨memory, u, memory', reached, run⟩ := routed.answered made rfl
    cases placed : router.verify host with
    | ok parts => exact absurd (decomposition_of_resolve placed) (outside parts)
    | error e =>
      have silent := Operation.run_of_unplaced (.create host target) placed memory
      rw [silent] at run
      cases (Prod.mk.inj (runs_done.mp run).2).1

/-- What an operation comes to over a table is one of its runs. -/
theorem runs_of_perform (op : Operation) {site site' : Site} {answer : Except Dns.Error Unit}
    (h : site.perform (op.action router) = (answer, site')) :
    ∃ u, Runs ((op.action router).run.run site.memory) u (answer, site'.memory) := by
  obtain ⟨u, run⟩ := exists_runs answerFrom ((op.action router).run.run site.memory) site.table
  obtain ⟨rfl, rfl⟩ := Prod.mk.inj h
  exact ⟨u, run⟩

theorem runs_of_unplaced (op : Operation) {e : Dns.Error}
    (unplaced : router.verify op.host = .error e) (memory : Router.Memory) :
    Runs ((op.action router).run.run memory) [] (.error e, memory) := by
  rw [Operation.run_of_unplaced op unplaced memory]
  exact .done _

/-- Of the hosts of three challenges one lies in the zone `a.org`. Its record is created and
deleted again, and the enrollment fails for the other two. -/
theorem changes_confined_rollback :
    ∃ t v message, Becomes (issue { policy := .default, cache := ⟨1000⟩ }
        SigningRequest.oneDomain).run t (.done (.error message)) ∧
      Routed oneZone t v ∧ Challenged t "x.a.org" "ca.net" ∧ Challenged t "x.b.org" "ca.net" ∧
      provisioned t = ["x.a.org"] ∧
      ChangesConfined oneZone t (.done (.error message)) (v ++ []) := by
  obtain ⟨r, parsed, names⟩ := SigningRequest.parse_oneDomain
  let site : Site := ⟨⟨.empty, true⟩, addressTable⟩
  obtain ⟨site₁, site₂, created, deleted⟩ : ∃ site₁ site₂,
      site.perform ((Operation.create "x.a.org" "ca.net").action oneZone) = (.ok (), site₁) ∧
        site₁.perform ((Operation.delete "x.a.org").action oneZone) = (.ok (), site₂) :=
    perform_perform (by decide +kernel)
  obtain ⟨b, unzonedB⟩ : ∃ e, oneZone.verify "x.b.org" = .error e := eq_error (by decide +kernel)
  obtain ⟨c, unzonedC⟩ : ∃ e, oneZone.verify "x.c.org" = .error e := eq_error (by decide +kernel)
  obtain ⟨u₁, creating⟩ := runs_of_perform _ created
  obtain ⟨u₂, deleting⟩ := runs_of_perform _ deleted
  let changes : Transcript := [⟨.call (.createRecord "x.a.org" "ca.net"), .ok ()⟩,
    ⟨.call (.createRecord "x.b.org" "ca.net"), .error b⟩,
    ⟨.call (.createRecord "x.c.org" "ca.net"), .error c⟩,
    ⟨.call (.deleteRecord "x.a.org"), .ok ()⟩]
  let t : Transcript := ⟨.call (.place "a.org"), .ok ()⟩ :: ⟨.lock (.ofNames r.names), ()⟩ ::
    ⟨readAsk (.ofNames r.names), .error "gone"⟩ ::
    ⟨.call (.create r.names r.pem 90), .ok threeChallenges⟩ :: (changes ++ [⟨.unlock, ()⟩])
  have placing : Runs (placeAll r.names).run [⟨.call (.place "a.org"), .ok ()⟩] (.ok ()) := by
    rw [names]
    exact .ask _ (.done _)
  have running : Runs (run { policy := .default, cache := ⟨1000⟩ } r).run
      (⟨.call (.create r.names r.pem 90), .ok threeChallenges⟩ :: changes) (.error _) :=
    .ask _ (.ask _ (.ask _ (.ask _ (.ask _ (.done _)))))
  have issuing : Runs (issue { policy := .default, cache := ⟨1000⟩ }
      SigningRequest.oneDomain).run t (.error _) := runs_issue_of_run parsed placing rfl running
  have start : oneZone.Reached site.memory := .start true
  have after : oneZone.Reached site₁.memory := .after start creating
  have refusing (op : Operation) {e : Dns.Error} (unplaced : oneZone.verify op.host = .error e) :=
    runs_of_unplaced op unplaced site₁.memory
  have routed : Routed oneZone t (u₁ ++ ([] ++ ([] ++ (u₂ ++ [])))) := by
    refine .skip rfl (.skip rfl (.skip rfl (.skip rfl (.operate rfl start creating ?_))))
    refine .operate rfl after (refusing (.create "x.b.org" "ca.net") unzonedB) ?_
    refine .operate rfl after (refusing (.create "x.c.org" "ca.net") unzonedC) ?_
    exact .operate rfl after deleting (.skip rfl .nil)
  have ordered : (⟨.call (.create r.names r.pem 90), .ok threeChallenges⟩ :
      Event Ask Ask.Answer) ∈ t :=
    List.mem_cons_of_mem _ (List.mem_cons_of_mem _ (List.mem_cons_of_mem _ List.mem_cons_self))
  have challenged : ∀ d ∈ threeChallenges.challenges, ∀ host target,
      d.2.cname? = some (host, target) → Challenged t host target :=
    fun d hd host target challenge => ⟨_, _, _, threeChallenges, ordered, rfl, d, hd, challenge⟩
  have challenges : threeChallenges.challenges = [("a.org", ⟨some "x.a.org", some "ca.net", none⟩),
      ("b.org", ⟨some "x.b.org", some "ca.net", none⟩),
      ("c.org", ⟨some "x.c.org", some "ca.net", none⟩)] := rfl
  rw [challenges] at challenged
  refine ⟨t, _, _, becomes_of_runs issuing, routed, ?_, ?_, rfl,
    changes_confined (becomes_of_runs issuing) routed (.idle _)⟩
  · exact challenged _ List.mem_cons_self _ _ rfl
  · exact challenged _ (List.mem_cons_of_mem _ List.mem_cons_self) _ _ rfl

end CertEnrollment.Enrollment
