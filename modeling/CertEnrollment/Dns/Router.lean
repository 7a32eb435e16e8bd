import CertEnrollment.Dns.Provider
import CertEnrollment.Dns.Resolve
import CertEnrollment.Dns.ZoneStore

/-!
# Routing record changes

Every host is placed in a zone, and its records are changed by the backend of that
zone. A backend is made on first use and kept; all zones in the hash store share one
connection, which is opened when the first of their backends is made.
-/
namespace CertEnrollment.Dns
open Data Store

inductive Backend where
  | zoneStore (s : ZoneStore)
  | provider (p : Provider)
  deriving DecidableEq, Repr

def Backend.kind : Backend → BackendKind
  | zoneStore _ => .coredns
  | provider _ => .namecom

structure Router where
  zones : List Zone
  options : Options
  /-- The kind for zones that ask for none. -/
  defaultKind : BackendKind
  deriving Repr

namespace Router

/-- What a router remembers. -/
structure Memory where
  /-- The backends made so far, by zone name. -/
  backends : SortedMap Backend
  /-- Whether there is a connection to the hash store. -/
  connected : Bool

def Memory.fresh : Memory := ⟨.empty, false⟩

/-- What a router asks of its surroundings. -/
inductive Ask where
  | connect (options : Store.Options)
  | store (a : HashAsk)
  | exchange (r : Http.Request)

abbrev Ask.Answer : Ask → Type
  | connect _ => Except String Unit
  | store a => a.Answer
  | exchange r => ExchangeAnswer r

/-- Interactions of a router. What it remembers survives a failure. -/
abbrev Action := ExceptT Error (StateT Memory (Interaction Ask Ask.Answer))

/-- A router over zones; without any backend configured there is none. -/
def make (zones : List Zone) (options : Options) : Except Error Router :=
  match options.kinds with
  | [] => .error .notConfigured
  | kind :: _ => .ok ⟨zones, options, kind⟩

def onStore {α : Type} (x : StoreAction α) : Action α :=
  ExceptT.mk fun memory => do
    return (← x.run.runWith fun a => Interaction.call (.store a), memory)

def onProvider {α : Type} (x : ProviderAction α) : Action α :=
  ExceptT.mk fun memory => do
    return (← x.run.runWith fun r => Interaction.call (.exchange r), memory)

/-- Opens the connection to the hash store, unless it is open. -/
def connect (options : Store.Options) : Action Unit := do
  let memory ← get
  if memory.connected then return
  let answer : Except String Unit ←
    ExceptT.lift (StateT.lift (Interaction.call (Ask.connect options)))
  match answer with
  | .error reason => throw (.store reason)
  | .ok () => set { memory with connected := true }

/-- Makes a backend of a kind for a zone; the section of the kind has to be there. -/
def build (r : Router) (z : Zone) (kind : BackendKind) : Action Backend :=
  let missing : Error := .optionsMissing kind.word z.name
  match kind with
  | .coredns => match r.options.coredns with
    | none => throw missing
    | some options => do
      connect options
      return .zoneStore (ZoneStore.ofZone z.name)
  | .namecom => match r.options.namecom with
    | none => throw missing
    | some options => match Provider.ofOptions z.name options with
      | .error e => throw e
      | .ok p => return .provider p

/-- The kind of backend for a zone. -/
def kindFor (r : Router) (z : Zone) : BackendKind := z.backend.getD r.defaultKind

/-- The backend of a zone, kept for its name from the first use on. -/
def backendFor (r : Router) (z : Zone) : Action Backend := do
  match (← get).backends.get? z.name with
  | some b => return b
  | none =>
    let b ← r.build z (r.kindFor z)
    modify fun memory => { memory with backends := memory.backends.insert z.name b }
    return b

/-- Places a host without touching any record. -/
def verify (r : Router) (host : String) : Except Error HostParts := resolve r.zones host

/-- Makes sure that a host has a CNAME to the target. -/
def createCname (r : Router) (host target : String) : Action Unit := do
  match r.verify host with
  | .error e => throw e
  | .ok parts => match ← r.backendFor parts.zone with
    | .zoneStore s => onStore (s.createCname parts.subdomain parts.branch target)
    | .provider p => do
      let _ ← onProvider (p.createCname parts.subdomain parts.branch target)

/-- Removes the CNAME records of a host. -/
def deleteCname (r : Router) (host : String) : Action Unit := do
  match r.verify host with
  | .error e => throw e
  | .ok parts => match ← r.backendFor parts.zone with
    | .zoneStore s => onStore (s.deleteCname parts.subdomain parts.branch)
    | .provider p => onProvider (p.deleteCname parts.subdomain parts.branch)

end Router
end CertEnrollment.Dns
