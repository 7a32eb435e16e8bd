import CertEnrollment.Dns.Router
import CertEnrollment.Proofs.Dns.Backends
import CertEnrollment.Proofs.Dns.Placement

/-!
# What a router does for a host

The configuration settles which backend serves a zone, so it does not matter what a router has
kept. An operation on the records of a host asks for nothing when the host cannot be placed or
when its zone has no backend, and then the configuration is at fault. Otherwise it stays with the
host: in the hash store it touches one field, and at the hosted provider it makes or removes
records of the zone. It may fail then, but not because of the configuration.
-/
namespace CertEnrollment.Dns
open Data Interaction Store

/-! ## The backend of a zone -/

/-- The name of the zone that a backend was made for. -/
def Backend.zone : Backend → String
  | zoneStore s => s.zone
  | provider p => p.zone

namespace Router

/-- The backend that serves a zone, or what the configuration lacks for it. -/
def backendOf (r : Router) (z : Zone) : Except Error Backend :=
  match r.kindFor z with
  | .coredns => match r.options.coredns with
    | none => .error (.optionsMissing "coredns" z.name)
    | some _ => .ok (.zoneStore (.ofZone z.name))
  | .namecom => match r.options.namecom with
    | none => .error (.optionsMissing "namecom" z.name)
    | some options => (Provider.ofOptions z.name options).map .provider

/-- The zone of a name; of several ones it is the last. -/
def zoneOf? (r : Router) (name : String) : Option Zone := r.zones.reverse.find? (·.name = name)

/-- Why an operation on a host cannot but fail, by the configuration. -/
def fault? (r : Router) (host : String) : Option Error :=
  match r.verify host with
  | .error e => some e
  | .ok parts => match r.backendOf parts.zone with
    | .error e => some e
    | .ok _ => none

/-- Every backend that is kept is the one of the zone of its name. -/
def Memory.Sound (memory : Memory) (r : Router) : Prop :=
  ∀ name b, memory.backends.get? name = some b →
    ∃ z, r.zoneOf? name = some z ∧ r.backendOf z = .ok b

variable {r : Router} {z : Zone} {b : Backend} {e : Error} {memory : Memory} {host : String}
  {parts : HostParts} {t : List (Event Ask Ask.Answer)}

theorem zoneOf?_eq_some (last : ∃ before after, r.zones = before ++ z :: after ∧
    ∀ other ∈ after, other.name ≠ z.name) : r.zoneOf? z.name = some z := by
  obtain ⟨before, after, split, others⟩ := last
  have skipped : after.reverse.find? (·.name = z.name) = none := by simpa using others
  simp [zoneOf?, split, skipped]

theorem zoneOf?_of_verify (h : r.verify host = .ok parts) :
    r.zoneOf? parts.zone.name = some parts.zone := by
  obtain ⟨more, chosen, -⟩ := chosen_of_resolve h
  exact zoneOf?_eq_some chosen.last

theorem isConfigError_of_resolve {zones : List Zone} (h : resolve zones host = .error e) :
    e.isConfigError = true := by
  rw [resolve] at h
  split at h
  · cases h
    rfl
  · split at h
    · cases h
    · cases h
      rfl

theorem isConfigError_of_backendOf (h : r.backendOf z = .error e) : e.isConfigError = true := by
  rw [backendOf] at h
  split at h
  · split at h
    · cases h
      rfl
    · cases h
  · split at h
    · cases h
      rfl
    · next options =>
      rw [Provider.ofOptions] at h
      split at h
      · cases h
      · cases h
        rfl

/-- The configuration is at fault just for hosts on which every operation fails. -/
theorem isConfigError_of_fault (h : r.fault? host = some e) : e.isConfigError = true := by
  rw [fault?] at h
  split at h
  · next unplaced =>
    cases h
    exact isConfigError_of_resolve unplaced
  · split at h
    · next unserved =>
      cases h
      exact isConfigError_of_backendOf unserved
    · cases h

theorem fault?_eq_none_iff : r.fault? host = none ↔
    ∃ parts b, r.verify host = .ok parts ∧ r.backendOf parts.zone = .ok b := by
  rw [fault?]
  cases r.verify host with
  | error e => simp
  | ok parts =>
    dsimp only
    cases served : r.backendOf parts.zone <;> simp [served]

theorem ofOptions_zone {zone : String} {o : ProviderOptions} {p : Provider}
    (account : Provider.ofOptions zone o = .ok p) : p.zone = Text.trim zone := by
  rw [Provider.ofOptions] at account
  split at account
  · exact (Except.ok.inj account) ▸ rfl
  · cases account

/-- The backend of a zone is of the kind for the zone, and made for its name. -/
theorem kind_of_backendOf (served : r.backendOf z = .ok b) :
    b.kind = r.kindFor z ∧ b.zone = Text.trim z.name := by
  rw [backendOf] at served
  split at served
  · next kind =>
    split at served
    · cases served
    · cases served
      exact ⟨kind.symm, rfl⟩
  · next kind =>
    split at served
    · cases served
    · next options configured =>
      cases account : Provider.ofOptions z.name options with
      | error e => simp [account, Except.map] at served
      | ok p =>
        obtain rfl : Backend.provider p = b := by simpa [account, Except.map] using served
        exact ⟨kind.symm, ofOptions_zone account⟩

/-! ## Actions of a router -/

theorem run_bind {α β : Type} (x : Action α) (f : α → Action β) (memory : Memory) :
    (x >>= f).run.run memory = x.run.run memory >>= fun out => match out.1 with
      | .error e => .done (.error e, out.2)
      | .ok a => (f a).run.run out.2 := by
  rw [ExceptT.run_bind, StateT.run_bind]
  refine congrArg _ (funext fun out => ?_)
  cases out.1 <;> rfl

/-- A failure of the first action is that of both. -/
theorem obeys_bind {α β : Type} {due : List (Event Ask Ask.Answer) → Ask → Prop}
    {mid : List (Event Ask Ask.Answer) → Except Error α × Memory → Prop}
    {ends : List (Event Ask Ask.Answer) → Except Error β × Memory → Prop} {x : Action α}
    {f : α → Action β} (first : (x.run.run memory).Obeys due mid t)
    (fails : ∀ u e memory', mid u (.error e, memory') → ends u (.error e, memory'))
    (second : ∀ u a memory', mid u (.ok a, memory') → ((f a).run.run memory').Obeys due ends u) :
    ((x >>= f).run.run memory).Obeys due ends t := by
  rw [run_bind]
  refine first.bind fun u out h => ?_
  obtain ⟨result, memory'⟩ := out
  cases result with
  | error e => exact fails u e memory' h
  | ok a => exact second u a memory' h

/-- What an action begins with the memory for. -/
theorem run_get_bind {α : Type} (f : Memory → Action α) :
    ((get >>= f : Action α).run.run memory) = (f memory).run.run memory :=
  rfl

/-- A connection is opened to the configured store alone, and no backend changes. -/
theorem obeys_connect (options : Store.Options) : ((connect options).run.run memory).Obeys
    (fun _ q => q = .connect options)
    (fun _ out => Blameless out.1 ∧ out.2.backends = memory.backends) t := by
  rw [connect, run_get_bind]
  split
  · exact ⟨blameless_ok _, rfl⟩
  · refine ⟨rfl, fun answer => ?_⟩
    cases answer with
    | error reason => exact ⟨blameless_error.mpr rfl, rfl⟩
    | ok _ => exact ⟨blameless_ok _, rfl⟩

theorem obeys_onStore {α : Type} {x : StoreAction α} {p : HashAsk → Prop}
    (h : x.run.Obeys (fun _ => p) (fun _ => Blameless) []) :
    ((onStore x).run.run memory).Obeys (fun _ q => ∃ a, q = .store a ∧ p a)
      (fun _ out => Blameless out.1 ∧ out.2 = memory) t := by
  have routed : (x.run.runWith fun a => Interaction.call (Ask.store a)).Obeys
      (fun _ q => ∃ a, q = .store a ∧ p a) (fun _ => Blameless) t :=
    h.runWith fun a holds => asks_call.mpr ⟨a, rfl, holds⟩
  exact routed.bind fun _ _ blameless => ⟨blameless, rfl⟩

theorem obeys_onProvider {α : Type} {x : ProviderAction α} {p : Http.Request → Prop}
    (h : x.run.Obeys (fun _ => p) (fun _ => Blameless) []) :
    ((onProvider x).run.run memory).Obeys (fun _ q => ∃ request, q = .exchange request ∧ p request)
      (fun _ out => Blameless out.1 ∧ out.2 = memory) t := by
  have routed : (x.run.runWith fun request => Interaction.call (Ask.exchange request)).Obeys
      (fun _ q => ∃ request, q = .exchange request ∧ p request) (fun _ => Blameless) t :=
    h.runWith fun request holds => asks_call.mpr ⟨request, rfl, holds⟩
  exact routed.bind fun _ _ blameless => ⟨blameless, rfl⟩

/-! ## Kept backends -/

theorem Memory.Sound.backend (sound : memory.Sound r) (zone : r.zoneOf? z.name = some z)
    (kept : memory.backends.get? z.name = some b) : r.backendOf z = .ok b := by
  obtain ⟨z', zone', served⟩ := sound z.name b kept
  obtain rfl : z = z' := Option.some.inj (zone.symm.trans zone')
  exact served

theorem Memory.Sound.insert (sound : memory.Sound r) (zone : r.zoneOf? z.name = some z)
    (served : r.backendOf z = .ok b) :
    ({ memory with backends := memory.backends.insert z.name b } : Memory).Sound r := by
  intro name b' kept
  rw [SortedMap.get?_insert] at kept
  split at kept
  · next same =>
    obtain rfl := Option.some.inj kept
    exact ⟨z, same ▸ zone, served⟩
  · exact sound name b' kept

/-- The request opens the connection to the configured hash store. -/
def Ask.Connects (r : Router) (q : Ask) : Prop :=
  ∃ options, q = .connect options ∧ r.options.coredns = some options

/-- Opens the connection that a backend needs. -/
def opening (r : Router) (b : Backend) : Action Unit :=
  match r.options.coredns, b with
  | some options, .zoneStore _ => connect options
  | _, _ => pure ()

/-- Which backend is made is known beforehand; only a connection may be missing for it. -/
theorem build_eq (z : Zone) : r.build z (r.kindFor z) = match r.backendOf z with
    | .error e => throw e
    | .ok b => do
      r.opening b
      return b := by
  simp only [build, backendOf]
  cases r.kindFor z with
  | coredns =>
    cases configured : r.options.coredns with
    | none => rfl
    | some options => simp only [opening, configured]
  | namecom =>
    cases r.options.namecom with
    | none => rfl
    | some options =>
      dsimp only
      cases Provider.ofOptions z.name options with
      | error e => rfl
      | ok p => cases configured : r.options.coredns <;> simp only [opening, configured] <;> rfl

theorem obeys_opening : ((r.opening b).run.run memory).Obeys (fun _ q => q.Connects r)
    (fun _ out => Blameless out.1 ∧ out.2.backends = memory.backends) t := by
  unfold opening
  split
  · next options _ configured =>
    exact (obeys_connect options).weaken fun _ q h => ⟨options, h, configured⟩
  · exact ⟨blameless_ok _, rfl⟩

theorem obeys_build (served : r.backendOf z = .ok b) :
    ((r.build z (r.kindFor z)).run.run memory).Obeys (fun _ q => q.Connects r)
      (fun _ out => Blameless out.1 ∧ (∀ b', out.1 = .ok b' → b' = b) ∧
        out.2.backends = memory.backends) t := by
  rw [build_eq, served]
  refine obeys_bind obeys_opening ?_ ?_
  · rintro _ e memory' ⟨blameless, kept⟩
    exact ⟨blameless.of_error, by simp, kept⟩
  · rintro u a memory' ⟨-, kept⟩
    exact ⟨blameless_ok _, by simp, kept⟩

/-- The backend of a zone, kept or made only now. -/
theorem obeys_backendFor (sound : memory.Sound r) (zone : r.zoneOf? z.name = some z)
    (served : r.backendOf z = .ok b) :
    ((r.backendFor z).run.run memory).Obeys (fun _ q => q.Connects r)
      (fun _ out => Blameless out.1 ∧ (∀ b', out.1 = .ok b' → b' = b) ∧ out.2.Sound r) t := by
  rw [backendFor, run_get_bind]
  cases kept : memory.backends.get? z.name with
  | some b' =>
    have same : b = b' := Except.ok.inj (served.symm.trans (sound.backend zone kept))
    exact ⟨blameless_ok _, by simp [same], sound⟩
  | none =>
    refine obeys_bind (obeys_build served) ?_ ?_
    · rintro _ e memory' ⟨blameless, -, same⟩
      exact ⟨blameless, by simp, fun name b' kept => sound name b' (same ▸ kept)⟩
    · rintro u b' memory' ⟨-, made, same⟩
      obtain rfl := made b' rfl
      have sound' : memory'.Sound r := fun name b' kept => sound name b' (same ▸ kept)
      exact ⟨blameless_ok _, by simp, sound'.insert zone served⟩

theorem backendFor_of_unserved (sound : memory.Sound r) (zone : r.zoneOf? z.name = some z)
    (unserved : r.backendOf z = .error e) :
    (r.backendFor z).run.run memory = .done (.error e, memory) := by
  rw [backendFor, run_get_bind]
  cases kept : memory.backends.get? z.name with
  | some b => cases unserved.symm.trans (sound.backend zone kept)
  | none =>
    dsimp only
    rw [build_eq, unserved]
    rfl

end Router

/-! ## Operations -/

/-- What can be done to the records of a host. -/
inductive Operation where
  | create (host target : String)
  | delete (host : String)
  deriving DecidableEq, Repr

namespace Operation
open Router

def host : Operation → String
  | create host _ => host
  | delete host => host

def action (r : Router) : Operation → Action Unit
  | create host target => r.createCname host target
  | delete host => r.deleteCname host

/-- The record that the hosted provider is given for a host with these parts. -/
def content? (parts : HostParts) : Operation → Option Value
  | create _ target =>
    some (Provider.newRecord (Provider.composeHost parts.subdomain parts.branch) target)
  | delete _ => none

/-- What an operation may ask for when its host has these parts: it stays with the backend of
their zone, and there with the records of the host. -/
def Permits (op : Operation) (r : Router) (parts : HostParts) : Router.Ask → Prop
  | .connect options => r.options.coredns = some options
  | .store a => ∃ s, r.backendOf parts.zone = .ok (.zoneStore s) ∧
      a.slot = (s.hashKey parts.branch, ZoneStore.fieldName parts.subdomain)
  | .exchange request => ∃ p, r.backendOf parts.zone = .ok (.provider p) ∧
      p.Confines (op.content? parts) request

/-- What is left to do with the backend of the host. -/
def finish (op : Operation) (parts : HostParts) : Backend → Action Unit
  | .zoneStore s => onStore (match op with
    | create _ target => s.createCname parts.subdomain parts.branch target
    | delete _ => s.deleteCname parts.subdomain parts.branch)
  | .provider p => match op with
    | create _ target => do
      let _ ← onProvider (p.createCname parts.subdomain parts.branch target)
    | delete _ => onProvider (p.deleteCname parts.subdomain parts.branch)

variable {op : Operation} {r : Router} {memory : Memory} {parts : HostParts} {b : Backend}
  {e : Error} {t : List (Event Router.Ask Ask.Answer)}

theorem action_eq (placed : r.verify op.host = .ok parts) :
    op.action r = r.backendFor parts.zone >>= op.finish parts := by
  cases op with
  | create host target =>
    rw [action, createCname, show r.verify host = _ from placed]
    refine congrArg (r.backendFor parts.zone >>= ·) (funext fun b => ?_)
    cases b <;> rfl
  | delete host =>
    rw [action, deleteCname, show r.verify host = _ from placed]
    refine congrArg (r.backendFor parts.zone >>= ·) (funext fun b => ?_)
    cases b <;> rfl

/-- For a host that cannot be placed, an operation asks for nothing. -/
theorem run_of_unplaced (op : Operation) (unplaced : r.verify op.host = .error e)
    (memory : Memory) : (op.action r).run.run memory = .done (.error e, memory) := by
  cases op with
  | create host target =>
    rw [action, createCname, show r.verify host = _ from unplaced]
    rfl
  | delete host =>
    rw [action, deleteCname, show r.verify host = _ from unplaced]
    rfl

/-- When the configuration is at fault, an operation asks for nothing and says so. -/
theorem run_of_fault (sound : memory.Sound r) (fault : r.fault? op.host = some e) :
    (op.action r).run.run memory = .done (.error e, memory) := by
  rw [fault?] at fault
  cases placed : r.verify op.host with
  | error e' =>
    rw [placed] at fault
    obtain rfl := Option.some.inj fault
    exact run_of_unplaced op placed memory
  | ok parts =>
    rw [placed] at fault
    cases served : r.backendOf parts.zone with
    | ok b => simp [served] at fault
    | error e' =>
      simp only [served, Option.some.injEq] at fault
      rw [action_eq placed, run_bind,
        backendFor_of_unserved sound (zoneOf?_of_verify placed) (fault ▸ served)]
      rfl

attribute [local irreducible] Interaction.Obeys in
theorem obeys_finish (served : r.backendOf parts.zone = .ok b) :
    ((op.finish parts b).run.run memory).Obeys (fun _ => op.Permits r parts)
      (fun _ out => Blameless out.1 ∧ out.2 = memory) t := by
  cases b with
  | zoneStore s =>
    have permitted : ∀ q, (∃ a, q = .store a ∧ a.slot =
        (s.hashKey parts.branch, ZoneStore.fieldName parts.subdomain)) → op.Permits r parts q := by
      rintro _ ⟨a, rfl, slot⟩
      exact ⟨s, served, slot⟩
    cases op with
    | create host target =>
      exact (obeys_onStore ZoneStore.obeys_createCname).weaken fun _ => permitted
    | delete host =>
      exact (obeys_onStore ZoneStore.obeys_deleteCname).weaken fun _ => permitted
  | provider p =>
    have permitted : ∀ q, (∃ request, q = .exchange request ∧
        p.Confines (op.content? parts) request) → op.Permits r parts q := by
      rintro _ ⟨request, rfl, confined⟩
      exact ⟨p, served, confined⟩
    cases op with
    | create host target =>
      refine obeys_bind ((obeys_onProvider Provider.obeys_createCname).weaken
        fun _ => permitted) ?_ ?_
      · rintro _ e memory' ⟨blameless, same⟩
        exact ⟨blameless.of_error, same⟩
      · rintro u a memory' ⟨-, same⟩
        exact obeys_done.mpr ⟨blameless_ok _, same⟩
    | delete host =>
      exact (obeys_onProvider Provider.obeys_deleteCname).weaken fun _ => permitted

/-- Otherwise it stays with the host, and the configuration is not what it fails for. -/
theorem obeys_of_faultless (sound : memory.Sound r) (faultless : r.fault? op.host = none) :
    ((op.action r).run.run memory).Obeys
      (fun _ q => ∃ parts, r.verify op.host = .ok parts ∧ op.Permits r parts q)
      (fun _ out => Blameless out.1 ∧ out.2.Sound r) t := by
  obtain ⟨parts, b, placed, served⟩ := fault?_eq_none_iff.mp faultless
  rw [action_eq placed]
  refine obeys_bind ((obeys_backendFor sound (zoneOf?_of_verify placed) served).weaken ?_) ?_ ?_
  · rintro _ _ ⟨options, rfl, configured⟩
    exact ⟨parts, placed, configured⟩
  · rintro _ e memory' ⟨blameless, -, sound'⟩
    exact ⟨blameless.of_error, sound'⟩
  · rintro u b' memory' ⟨-, same, sound'⟩
    obtain rfl := same b' rfl
    refine ((obeys_finish served).weaken fun _ q permitted => ⟨parts, placed, permitted⟩).imp ?_
    rintro _ out ⟨blameless, same⟩
    exact ⟨blameless, same ▸ sound'⟩

variable {result : Except Error Unit} {memory' : Memory} {u : List (Event Router.Ask Ask.Answer)}

/-- An operation either fails at once because of the configuration, or it does not fail because
of it. -/
theorem fault_or_blameless (sound : memory.Sound r)
    (run : Runs ((op.action r).run.run memory) u (result, memory')) :
    (∃ e, r.fault? op.host = some e ∧ u = [] ∧ result = .error e ∧ memory' = memory) ∨
      (r.fault? op.host = none ∧ Blameless result ∧ memory'.Sound r) := by
  cases fault : r.fault? op.host with
  | some e =>
    rw [run_of_fault sound fault] at run
    obtain ⟨rfl, same⟩ := runs_done.mp run
    cases same
    exact .inl ⟨e, rfl, rfl, rfl, rfl⟩
  | none =>
    have obeyed := (obeys_of_faultless (t := []) sound fault).becomes (becomes_of_runs run)
    exact .inr ⟨rfl, obeyed⟩

/-- Whatever is answered, an operation stays with its host. -/
theorem permits_of_becomes (sound : memory.Sound r)
    {y : Interaction Router.Ask Ask.Answer (Except Error Unit × Memory)}
    (going : Becomes ((op.action r).run.run memory) u y) :
    ∀ e ∈ u, ∃ parts, r.verify op.host = .ok parts ∧ op.Permits r parts e.request := by
  intro e he
  cases fault : r.fault? op.host with
  | some e' =>
    rw [run_of_fault sound fault] at going
    obtain ⟨rfl, -⟩ := becomes_done.mp going
    cases he
  | none =>
    obtain ⟨before, later, split⟩ := List.append_of_mem he
    exact (obeys_of_faultless (t := []) sound fault).due_of_becomes going split

end Operation

/-! ## What a router remembers -/

/-- A router starts without backends, connected or not, and may have been through any operations
with any answers since. -/
inductive Router.Reached (r : Router) : Router.Memory → Prop
  | start (connected : Bool) : Reached r ⟨.empty, connected⟩
  | after {memory memory' : Router.Memory} {op : Operation} {result : Except Error Unit}
      {u : List (Event Router.Ask Router.Ask.Answer)} (earlier : Reached r memory)
      (run : Runs ((op.action r).run.run memory) u (result, memory')) : Reached r memory'

theorem Router.Reached.sound {r : Router} {memory : Router.Memory} (h : r.Reached memory) :
    memory.Sound r := by
  induction h with
  | start connected =>
    intro name b kept
    simp at kept
  | after earlier run ih =>
    obtain ⟨e, -, -, -, rfl⟩ | ⟨-, -, sound⟩ := Operation.fault_or_blameless ih run
    · exact ih
    · exact sound

end CertEnrollment.Dns
