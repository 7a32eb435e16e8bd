import CertEnrollment.Dns.Router
import CertEnrollment.Proofs.Dns.RecordMaps

/-!
# A router over a table

A router whose hash store is a table in memory. When all of its zones are in that store, it
asks for nothing else, and what it does to the table depends on one field alone: the slot
of the host.
-/
namespace CertEnrollment.Dns
open Data Store

/-! ## Single fields -/

/-- The records that a field of the table spells; an absent field has none. -/
def recordsIn (table : HashTable) (key field : String) : Reading RecordMap :=
  match table.get? key field with
  | none => .ok .empty
  | some text => RecordMap.ofText text

/-- The table after a creation in a field with these records. -/
def withCname (table : HashTable) (key field : String) (m : RecordMap) (target : String) :
    HashTable :=
  table.set key field (RecordMap.text (m.insert "cname"
    (RecordMap.merge [ZoneStore.cnameRecord target] ((m.get? "cname").getD []))))

/-- The table after a deletion in a field with these records. -/
def withoutCnames (table : HashTable) (key field : String) (m : RecordMap) : HashTable :=
  if (m.get? "cname").isNone then table
  else if (m.erase "cname").isEmpty then table.delete key field
  else table.set key field (RecordMap.text (m.erase "cname"))

/-- The table answers. -/
def byTable (a : HashAsk) : StateM HashTable a.Answer := fun table => table.respond a

/-- An interaction with the hash store, answered by the table. -/
def onTable {α : Type} (x : StoreAction α) (table : HashTable) : Except Error α × HashTable :=
  (x.run.runWith byTable).run table

theorem onTable_bind {α β : Type} (x : StoreAction α) (f : α → StoreAction β) (table : HashTable) :
    onTable (x >>= f) table = match onTable x table with
      | (.ok a, table') => onTable (f a) table'
      | (.error e, table') => (.error e, table') := by
  simp only [onTable, ExceptT.run_bind, Interaction.runWith_bind, StateT.run_bind]
  obtain ⟨e | a, table'⟩ := (x.run.runWith byTable).run table <;> rfl

theorem onTable_getField (key field : String) (table : HashTable) :
    onTable (ZoneStore.getField key field) table = (.ok (table.get? key field), table) := rfl

theorem onTable_setField (key field value : String) (table : HashTable) :
    onTable (ZoneStore.setField key field value) table = (.ok (), table.set key field value) := rfl

theorem onTable_deleteField (key field : String) (table : HashTable) :
    onTable (ZoneStore.deleteField key field) table = (.ok (), table.delete key field) := rfl

theorem onTable_records (key field : String) (table : HashTable) :
    onTable (ZoneStore.records key field) table = match recordsIn table key field with
      | .error e => (.error (.json e), table)
      | .ok m => (.ok m, table) := by
  rw [ZoneStore.records, onTable_bind, onTable_getField, recordsIn]
  cases table.get? key field with
  | none => rfl
  | some text =>
    dsimp only
    cases RecordMap.ofText text <;> rfl

theorem onTable_createCname (z : ZoneStore) (subdomain branch target : String)
    (table : HashTable) :
    onTable (z.createCname subdomain branch target) table =
      match recordsIn table (z.hashKey branch) (ZoneStore.fieldName subdomain) with
      | .error e => (.error (.json e), table)
      | .ok m => (.ok (), withCname table (z.hashKey branch) (ZoneStore.fieldName subdomain) m
          target) := by
  rw [ZoneStore.createCname, ZoneStore.create, onTable_bind, onTable_records]
  cases recordsIn table (z.hashKey branch) (ZoneStore.fieldName subdomain) <;> rfl

theorem onTable_deleteCname (z : ZoneStore) (subdomain branch : String) (table : HashTable) :
    onTable (z.deleteCname subdomain branch) table =
      match recordsIn table (z.hashKey branch) (ZoneStore.fieldName subdomain) with
      | .error e => (.error (.json e), table)
      | .ok m => (.ok (), withoutCnames table (z.hashKey branch)
          (ZoneStore.fieldName subdomain) m) := by
  rw [ZoneStore.deleteCname, ZoneStore.delete, onTable_bind, onTable_records]
  cases recordsIn table (z.hashKey branch) (ZoneStore.fieldName subdomain) with
  | error e => rfl
  | ok m =>
    dsimp only [withoutCnames]
    split
    · rfl
    · split
      · exact onTable_deleteField _ _ table
      · exact onTable_setField _ _ _ table

/-! ## Actions of a router -/

/-- What a router remembers, and the table that is its hash store. -/
structure Site where
  memory : Router.Memory
  table : HashTable

/-- The answers to a router that has nothing but the table. -/
def answerFrom : (a : Router.Ask) → StateM HashTable a.Answer
  | .connect _ => pure (.ok ())
  | .store a => fun table => table.respond a
  | .exchange _ => pure (.error .noAnswer)

/-- What an action of the router ends with, and the site after it. -/
def Site.perform {α : Type} (x : Router.Action α) (site : Site) : Except Error α × Site :=
  let outcome := ((x.run.run site.memory).runWith answerFrom).run site.table
  (outcome.1.1, ⟨outcome.1.2, outcome.2⟩)

theorem Site.perform_bind {α β : Type} (x : Router.Action α) (f : α → Router.Action β)
    (site : Site) :
    site.perform (x >>= f) = match site.perform x with
      | (.ok a, site') => site'.perform (f a)
      | (.error e, site') => (.error e, site') := by
  simp only [Site.perform, ExceptT.run_bind, Interaction.runWith_bind, StateT.run_bind]
  obtain ⟨⟨e | a, memory⟩, table⟩ :=
    ((x.run.run site.memory).runWith answerFrom).run site.table <;> rfl
/-- The router hands a request to its hash store. -/
def handOver (a : HashAsk) : Interaction Router.Ask Router.Ask.Answer a.Answer :=
  Interaction.call (Router.Ask.store a)

theorem runWith_handOver {α : Type} (x : Interaction HashAsk HashAsk.Answer α)
    (table : HashTable) :
    ((x.runWith handOver).runWith answerFrom).run table = (x.runWith byTable).run table := by
  induction x generalizing table with
  | done a => rfl
  | ask request next ih => exact ih (table.respond request).1 (table.respond request).2

theorem Site.perform_onStore {α : Type} (x : StoreAction α) (site : Site) :
    site.perform (Router.onStore x) =
      ((onTable x site.table).1, ⟨site.memory, (onTable x site.table).2⟩) := by
  have run : (Router.onStore x).run.run site.memory =
      x.run.runWith handOver >>= fun answer => pure (answer, site.memory) := rfl
  rw [onTable, ← runWith_handOver, Site.perform, run, Interaction.runWith_bind]
  rfl

/-- There is a connection, and the backends made so far are in the hash store. -/
structure Router.Memory.InStore (m : Router.Memory) : Prop where
  connected : m.connected = true
  backends : ∀ name b, m.backends.get? name = some b → b = .zoneStore (.ofZone name)

namespace Router

/-- Every zone is in the hash store. -/
structure InStore (r : Router) : Prop where
  configured : r.options.coredns.isSome = true
  kinds : ∀ z ∈ r.zones, r.kindFor z = .coredns

/-- Key and field of the records of a host. -/
def slot? (r : Router) (host : String) : Option (String × String) :=
  match r.verify host with
  | .error _ => none
  | .ok parts => some ((ZoneStore.ofZone parts.zone.name).hashKey parts.branch,
      ZoneStore.fieldName parts.subdomain)

theorem mem_of_longest {parts : List HostParts} {best : Option HostParts} {p : HostParts}
    (h : parts.foldl HostParts.longer best = some p) : best = some p ∨ p ∈ parts := by
  induction parts generalizing best with
  | nil => exact .inl h
  | cons q parts ih =>
    rcases ih h with chosen | later
    · cases best with
      | none => exact .inr (Option.some.inj chosen ▸ List.mem_cons_self)
      | some b =>
        rw [HostParts.longer] at chosen
        split at chosen
        · exact .inr (Option.some.inj chosen ▸ List.mem_cons_self)
        · exact .inl chosen
    · exact .inr (List.mem_cons_of_mem _ later)

/-- A host is placed in one of the zones. -/
theorem zone_mem_of_verify {r : Router} {host : String} {parts : HostParts}
    (h : r.verify host = .ok parts) : parts.zone ∈ r.zones := by
  rw [verify, resolve] at h
  cases placed : placement? r.zones (normalize host) with
  | none => simp [placed] at h
  | some p =>
    simp only [placed] at h
    split at h
    · cases h
      have chosen := (mem_of_longest placed).resolve_left (by simp)
      obtain ⟨z, hz, found⟩ := List.mem_filterMap.mp chosen
      obtain ⟨pair, -, rfl⟩ := Option.map_eq_some_iff.mp found
      exact hz
    · cases h

variable {r : Router}

theorem perform_get (site : Site) : site.perform (get : Action Memory) = (.ok site.memory, site) :=
  rfl

theorem perform_connect (options : Store.Options) {site : Site} (h : site.memory.InStore) :
    site.perform (connect options) = (.ok (), site) := by
  rw [connect, Site.perform_bind, perform_get]
  dsimp only
  rw [if_pos h.connected]
  rfl

/-- The backend that is made for a zone is its part of the hash store. -/
theorem perform_build (inStore : r.InStore) {site : Site} (h : site.memory.InStore) (z : Zone) :
    site.perform (r.build z .coredns) = (.ok (.zoneStore (.ofZone z.name)), site) := by
  obtain ⟨options, configured⟩ := Option.isSome_iff_exists.mp inStore.configured
  simp only [build, configured]
  rw [Site.perform_bind, perform_connect options h]
  rfl

/-- The backend of a zone is its part of the hash store, also when it is made only now. -/
theorem perform_backendFor (inStore : r.InStore) {site : Site} (h : site.memory.InStore) {z : Zone}
    (hz : z ∈ r.zones) :
    ∃ memory : Memory, memory.InStore ∧
      site.perform (r.backendFor z) =
        (.ok (.zoneStore (.ofZone z.name)), ⟨memory, site.table⟩) := by
  rw [backendFor, Site.perform_bind, perform_get]
  dsimp only
  cases known : site.memory.backends.get? z.name with
  | some b => exact ⟨site.memory, h, by rw [h.backends z.name b known]; rfl⟩
  | none =>
    refine ⟨⟨site.memory.backends.insert z.name (.zoneStore (.ofZone z.name)),
      site.memory.connected⟩, ⟨h.connected, fun name b found => ?_⟩, ?_⟩
    · rw [SortedMap.get?_insert] at found
      split at found
      · next same => rw [same, ← Option.some.inj found]
      · exact h.backends name b found
    · dsimp only
      rw [inStore.kinds z hz, Site.perform_bind, perform_build inStore h]
      rfl

/-! ## Creations and deletions -/

theorem perform_createCname_of_error {host target : String} {e : Error} (site : Site)
    (h : r.verify host = .error e) :
    site.perform (r.createCname host target) = (.error e, site) := by
  rw [createCname, h]
  rfl

/-- A creation fails without a change, or puts a record into the slot of the host. -/
theorem perform_createCname (inStore : r.InStore) {site : Site} (h : site.memory.InStore)
    (host target : String) :
    ∃ memory : Memory, memory.InStore ∧
      ((∃ e, site.perform (r.createCname host target) = (.error e, ⟨memory, site.table⟩)) ∨
        ∃ key field m, r.slot? host = some (key, field) ∧
          recordsIn site.table key field = .ok m ∧
          site.perform (r.createCname host target) =
            (.ok (), ⟨memory, withCname site.table key field m target⟩)) := by
  cases placed : r.verify host with
  | error e => exact ⟨site.memory, h, .inl ⟨e, perform_createCname_of_error site placed⟩⟩
  | ok parts =>
    rw [createCname, slot?, placed]
    obtain ⟨memory, kept, same⟩ := perform_backendFor inStore h (zone_mem_of_verify placed)
    refine ⟨memory, kept, ?_⟩
    dsimp only
    rw [Site.perform_bind, same]
    dsimp only
    rw [Site.perform_onStore, onTable_createCname]
    cases records : recordsIn site.table _ _ with
    | error e => exact .inl ⟨.json e, rfl⟩
    | ok m => exact .inr ⟨_, _, m, rfl, records, rfl⟩

/-- A deletion in a readable slot succeeds. -/
theorem perform_deleteCname (inStore : r.InStore) {site : Site} (h : site.memory.InStore)
    {host key field : String} {m : RecordMap} (slot : r.slot? host = some (key, field))
    (records : recordsIn site.table key field = .ok m) :
    ∃ memory : Memory, memory.InStore ∧ site.perform (r.deleteCname host) =
      (.ok (), ⟨memory, withoutCnames site.table key field m⟩) := by
  rw [slot?] at slot
  rw [deleteCname]
  cases placed : r.verify host with
  | error e => simp [placed] at slot
  | ok parts =>
    rw [placed] at slot
    obtain ⟨rfl, rfl⟩ := Prod.mk.inj (Option.some.inj slot)
    obtain ⟨memory, kept, same⟩ := perform_backendFor inStore h (zone_mem_of_verify placed)
    refine ⟨memory, kept, ?_⟩
    dsimp only
    rw [Site.perform_bind, same]
    dsimp only
    rw [Site.perform_onStore, onTable_deleteCname, records]

end Router
end CertEnrollment.Dns
