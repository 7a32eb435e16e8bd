import CertEnrollment.Enrollment.Handler
import CertEnrollment.Proofs.Enrollment.Stages

/-!
# What handlers answer and send

The answers of a handler to the calls of an enrollment, as far as they are decided by how it is
configured, and the form that it sends when a certificate is to be created.
-/
namespace CertEnrollment.Http.Request

theorem body_of_prepare {request ready : Request}
    (h : request.prepare = .ok ready) : ready.body = request.body := by
  rw [prepare] at h
  dsimp only at h
  split at h
  · cases h
    rfl
  · cases h

end CertEnrollment.Http.Request

namespace CertEnrollment.Authority.Client
open Interaction

/-- The body of the request is this form. -/
def Posts (pairs : List (String × String)) (request : Http.Request) : Prop :=
  request.body = String.ofList (Url.encodeForm pairs)

-- The interactions have names here, since to unfold one is to read the address of the authority.
section
variable {c : Client} {path : String} {pairs : List (String × String)}

theorem asks_send {x : ClientAction Data.Value} (sends : c.send path (some pairs) = x) :
    x.run.Asks (Posts pairs) := by
  rw [send] at sends
  subst sends
  cases c.url path with
  | error e => exact asks_throw
  | ok url =>
    dsimp only
    split
    · exact asks_throw
    · next request ready => exact ⟨Http.Request.body_of_prepare ready, fun _ => trivial⟩

theorem asks_fetch {α : Type} {read : Data.Tree → Data.Reading α} {x : ClientAction α}
    (fetches : c.fetch read path (some pairs) = x) : x.run.Asks (Posts pairs) := by
  obtain ⟨y, sends⟩ : ∃ y, c.send path (some pairs) = y := ⟨_, rfl⟩
  rw [fetch, sends] at fetches
  subst fetches
  exact (asks_send sends).run_bind fun _ => trivial

theorem asks_create {names : List String} {pem : String} {days : Nat} {x : ClientAction Certificate}
    (creates : c.create names pem days = x) : x.run.Asks (Posts (orderForm names pem days)) :=
  asks_fetch creates

end

end CertEnrollment.Authority.Client

namespace CertEnrollment.Enrollment.Handler
open Authority Cache Interaction

/-- The calls in the history have answers that the handler gives. -/
def Answered (h : Handler) (t : Transcript) : Prop :=
  ∀ (c : Call) answer, ⟨.call c, answer⟩ ∈ t →
    ∃ memory u memory', Runs ((h.respond c).run memory) u (answer, memory')

variable {config : Config} {h : Handler} {t : Transcript}

/-- A handler is made of a client and of a router over the zones. -/
theorem exists_of_ofConfig (made : ofConfig config = .ok h) : ∃ client router,
    Client.make config.account.accessKey config.account.baseUrl none = .ok client ∧
      Dns.Router.make config.zones config.options = .ok router ∧
      h = ⟨client, router, { policy := config.policy, cache := config.cache }, config.redis⟩ := by
  unfold ofConfig at made
  cases account : Client.make config.account.accessKey config.account.baseUrl none with
  | error e =>
    rw [account] at made
    cases made
  | ok client =>
    cases routing : Dns.Router.make config.zones config.options with
    | error e =>
      rw [account, routing] at made
      cases made
    | ok router =>
      rw [account, routing] at made
      exact ⟨client, router, rfl, rfl, (Except.ok.inj made).symm⟩

theorem zones_of_ofConfig (made : ofConfig config = .ok h) : h.router.zones = config.zones := by
  obtain ⟨client, router, -, routing, rfl⟩ := exists_of_ofConfig made
  unfold Dns.Router.make at routing
  split at routing
  · cases routing
  · exact (Except.ok.inj routing) ▸ rfl

/-- The hosts were placed by the router. -/
theorem Answered.placed (answered : h.Answered t) {host : String}
    {answer : (Call.place host).Answer} (he : ⟨.call (.place host), answer⟩ ∈ t) :
    answer = (Dns.resolve h.router.zones host).map fun _ => () := by
  obtain ⟨memory, u, memory', run⟩ := answered _ _ he
  obtain ⟨-, same⟩ := runs_done.mp run
  exact (Prod.mk.inj same).1

/-- A handler asks for nothing to place a host. -/
theorem runs_of_placed {host : String} {parts : Dns.HostParts}
    (placed : h.router.verify host = .ok parts) (memory : Memory) :
    Runs ((h.respond (.place host)).run memory) [] (.ok (), memory) := by
  have answer : (h.respond (.place host)).run memory = .done (.ok (), memory) := by
    change Interaction.done ((h.router.verify host).map fun _ => (), memory) = _
    rw [placed]
    rfl
  rw [answer]
  exact .done _

/-- A cache in memory looks at the clock and then at its table. -/
theorem onCacheStore_inMemory (inMemory : h.cacheServer = none) (a : Cache.Ask) (memory : Memory) :
    h.onCacheStore a memory = .ask .clock fun now =>
      .done ((memory.table.respond now a).1, { memory with table := (memory.table.respond now a).2 }) := by
  simp only [onCacheStore, inMemory]
  rfl

theorem asks_onClient {α : Type} {p : Http.Request → Prop} {x : ClientAction α} (all : x.run.Asks p)
    (memory : Memory) :
    ((onClient x).run memory).Asks fun q => ∀ request, q = .exchange request → p request := by
  refine Asks.bind (all.runWith fun request holds => ?_) fun _ => trivial
  refine asks_call.mpr ?_
  rintro _ ⟨⟩
  exact holds

/-- What the handler sends when a certificate is to be created is the order. -/
theorem posts_of_create {names : List String} {pem : String} {days : Nat} {memory : Memory}
    {request : Http.Request} {next : Ask.Answer (.exchange request) → World _}
    {sent : List (Event Ask Ask.Answer)}
    (sends : Becomes ((h.respond (.create names pem days)).run memory) sent
      (.ask (.exchange request) next)) :
    Client.Posts (Client.orderForm names pem days) request := by
  obtain ⟨x, creates⟩ : ∃ x, h.client.create names pem days = x := ⟨_, rfl⟩
  have calls : h.respond (.create names pem days) = onClient x := congrArg onClient creates
  rw [calls] at sends
  exact (sends.asks (asks_onClient (Client.asks_create creates) memory)).2.1 request rfl

end CertEnrollment.Enrollment.Handler
