import CertEnrollment.Authority.Client
import CertEnrollment.Dns.Router
import CertEnrollment.Enrollment.Config
import CertEnrollment.Enrollment.Flow

/-!
# Handlers

A handler answers the calls of enrollments with what it is configured with: a client of
the authority, a router of record changes, and a store for the cache. What is left are
HTTP exchanges, sessions with key-value servers, and a clock.
-/
namespace CertEnrollment.Enrollment

structure Handler where
  client : Authority.Client
  router : Dns.Router
  setup : Setup
  /-- The server that the cache is kept on; without it there is a store in memory. -/
  cacheServer : Option Store.Options

namespace Handler

/-- The handler of a configuration. The account is looked at before the backends. -/
def ofConfig (c : Config) : Except Error Handler := do
  let client ← (Authority.Client.make c.account.accessKey c.account.baseUrl none).mapError
    .authority
  let router ← (Dns.Router.make c.zones c.options).mapError .dns
  return ⟨client, router, { policy := c.policy, cache := c.cache }, c.redis⟩

/-- What a handler remembers. -/
structure Memory where
  router : Dns.Router.Memory
  /-- Whether there is a connection to the server of the cache. -/
  connected : Bool
  /-- The cache, when it is kept in memory. -/
  table : Cache.Table

def Memory.fresh : Memory := ⟨.fresh, false, .empty⟩

/-- What a handler asks of the world. -/
inductive Ask where
  | exchange (r : Http.Request)
  | server (a : Store.Server.Ask)
  /-- The time of the cache, in milliseconds. -/
  | clock

abbrev Ask.Answer : Ask → Type
  | exchange _ => Except Http.Failure Http.Response
  | server a => a.Answer
  | clock => Nat

abbrev World := Interaction Ask Ask.Answer

abbrev Action := StateT Memory World

def onServer {α : Type} (x : Interaction Store.Server.Ask Store.Server.Ask.Answer α) : World α :=
  x.runWith fun a => Interaction.call (Ask.server a)

/-- What the router asks, with the hash store on a key-value server. -/
def route : (a : Dns.Router.Ask) → World a.Answer
  | .connect options => onServer (Store.Server.openFor options).run
  | .store a => onServer a.onServer
  | .exchange r => Interaction.call (Ask.exchange r)

def onRouter {α : Type} (x : Dns.Router.Action α) : Action (Except Dns.Error α) := fun memory => do
  let (result, router) ← (x.run.run memory.router).runWith route
  return (result, { memory with router })

def onClient {α : Type} (x : Authority.ClientAction α) : Action (Except Authority.Error α) :=
  StateT.lift (x.run.runWith fun r => Interaction.call (Ask.exchange r))

def onCacheStore (h : Handler) (a : Cache.Ask) : Action a.Answer := fun memory =>
  match h.cacheServer with
  | some options => do
    let (answer, connected) ← onServer ((a.remotely options).run memory.connected)
    return (answer, { memory with connected })
  | none => do
    let now : Nat ← Interaction.call Ask.clock
    let (answer, table) := memory.table.respond now a
    return (answer, { memory with table })

/-- The answer to a call of an enrollment. -/
def respond (h : Handler) : (c : Call) → Action c.Answer
  | .place host => return (h.router.verify host).map fun _ => ()
  | .cache a => h.onCacheStore a
  | .create names pem days => onClient (h.client.create names pem days)
  | .check id => onClient (h.client.verify id .dns)
  | .get id => onClient (h.client.get id)
  | .download id => onClient (h.client.download id)
  | .createRecord host target => onRouter (h.router.createCname host target)
  | .deleteRecord host => onRouter (h.router.deleteCname host)

end Handler
end CertEnrollment.Enrollment
