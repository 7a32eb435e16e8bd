import CertEnrollment.Proofs.Dns.TableRouter

/-!
# Slots during an enrollment

What the slots hold after some creations and some deletions, compared with the table at
first: apart from CNAME records nothing changes, and a slot in which a deletion took place
has no CNAME records.
-/
namespace CertEnrollment.Dns
open Data Store RecordMap

/-- Every double in the readable fields is read back as it is written. -/
def Legible (table : HashTable) : Prop :=
  ∀ key field text m, table.get? key field = some text → ofText text = .ok m → m.ExactDoubles

variable {initial table table' : HashTable} {key field : String}

theorem Legible.storable {m : RecordMap} (h : Legible table)
    (records : recordsIn table key field = .ok m) : Storable m := by
  rw [recordsIn] at records
  cases found : table.get? key field with
  | none =>
    rw [found] at records
    cases records
    exact fun e he => absurd he List.not_mem_nil
  | some text =>
    rw [found] at records
    exact storable_of_ofText records (h key field text m found records)

theorem legible_empty : Legible .empty := by
  intro key field text m found
  simp [HashTable.empty, HashTable.get?, HashTable.hash] at found

/-- A text may be added that spells no doubles. -/
theorem Legible.set {text : String} (h : Legible table) (key field : String)
    (no_doubles : ((ofText text).toOption.all fun m => m.entries.all fun e => e.2.all fun v =>
      (Json.numbers v).all fun n => n matches .int _) = true) :
    Legible (table.set key field text) := by
  intro k f text' m found read
  rw [HashTable.get?_set] at found
  split at found
  · cases found
    rw [read] at no_doubles
    intro e he v hv x hx
    have int := List.all_eq_true.mp (List.all_eq_true.mp (List.all_eq_true.mp no_doubles e he) v hv)
    cases int _ hx
  · exact h k f text' m found read

theorem recordsIn_congr (h : table'.get? key field = table.get? key field) :
    recordsIn table' key field = recordsIn table key field := by
  rw [recordsIn, recordsIn, h]

/-! ## What a field holds -/

/-- The field holds the text of the records; without any it is absent. -/
def Spells (table : HashTable) (key field : String) (m : RecordMap) : Prop :=
  table.get? key field = if m.isEmpty then none else some (text m)

theorem Spells.records {m : RecordMap} (h : Spells table key field m) (storable : Storable m) :
    recordsIn table key field = .ok m := by
  rw [recordsIn, h]
  split
  · next absent =>
    split at absent
    · next nothing => exact congrArg Except.ok (SortedMap.ext (List.isEmpty_iff.mp nothing).symm)
    · cases absent
  · next text found =>
    split at found
    · cases found
    · cases found
      exact ofText_text storable

theorem spells_set {m : RecordMap} (some_there : m.isEmpty = false) :
    Spells (table.set key field (text m)) key field m := by
  simp [Spells, some_there]

/-- The field holds its first records up to CNAME records. -/
def Kept (initial table : HashTable) (key field : String) : Prop :=
  ∃ first m, recordsIn initial key field = .ok first ∧ Spells table key field m ∧
    Storable m ∧ m.erase "cname" = first.erase "cname"

/-- The field holds its first records but the CNAME records. -/
def Cleared (initial table : HashTable) (key field : String) : Prop :=
  ∃ first, recordsIn initial key field = .ok first ∧
    Spells table key field (first.erase "cname") ∧ Storable (first.erase "cname")

theorem Kept.frame (h : Kept initial table key field)
    (same : table'.get? key field = table.get? key field) : Kept initial table' key field := by
  obtain ⟨first, m, before, spells, rest⟩ := h
  exact ⟨first, m, before, same.trans spells, rest⟩

theorem Cleared.frame (h : Cleared initial table key field)
    (same : table'.get? key field = table.get? key field) :
    Cleared initial table' key field := by
  obtain ⟨first, before, spells, storable⟩ := h
  exact ⟨first, before, same.trans spells, storable⟩

theorem Cleared.kept (h : Cleared initial table key field) : Kept initial table key field := by
  obtain ⟨first, before, spells, storable⟩ := h
  refine ⟨first, _, before, spells, storable, SortedMap.erase_of_get?_eq_none ?_⟩
  simp

/-- Creating a record in a slot keeps the other ones. -/
theorem Kept.create {first m : RecordMap} (before : recordsIn initial key field = .ok first)
    (storable : Storable m) (same : m.erase "cname" = first.erase "cname") (target : String) :
    Kept initial (withCname table key field m target) key field := by
  have lasting : ∀ v ∈ [ZoneStore.cnameRecord target], Lasting v := by
    simpa using ZoneStore.lasting_cnameRecord target
  refine ⟨first, _, before, spells_set (by simp), storable.merge lasting, ?_⟩
  rw [SortedMap.erase_insert, same]

/-- A deletion clears a slot that was kept. -/
theorem Kept.delete (h : Kept initial table key field) :
    ∃ m, recordsIn table key field = .ok m ∧
      Cleared initial (withoutCnames table key field m) key field := by
  obtain ⟨first, m, before, spells, storable, same⟩ := h
  refine ⟨m, spells.records storable, first, before, ?_, same ▸ storable.erase "cname"⟩
  rw [← same, withoutCnames]
  split
  · next absent => rwa [SortedMap.erase_of_get?_eq_none (Option.isNone_iff_eq_none.mp absent)]
  · split
    · next nothing => simp [Spells, nothing]
    · next some_there => exact spells_set (by simpa using some_there)

theorem get?_withoutCnames (m : RecordMap) {k f : String} (other : ¬ (k = key ∧ f = field)) :
    (withoutCnames table key field m).get? k f = table.get? k f := by
  rw [withoutCnames]
  split
  · rfl
  · split <;> simp [other]

/-! ## The slots of hosts -/

/-- Records were created for the hosts in `made`, and deleted for those in `gone`. -/
structure Ledger (r : Router) (initial table : HashTable) (made gone : List String) : Prop where
  placed : ∀ host ∈ made, ∃ key field, r.slot? host = some (key, field)
  kept : ∀ host ∈ made, ∀ key field, r.slot? host = some (key, field) →
    Kept initial table key field
  cleared : ∀ host ∈ gone, ∀ key field, r.slot? host = some (key, field) →
    Cleared initial table key field
  others : ∀ key field, (∀ host ∈ made, r.slot? host ≠ some (key, field)) →
    table.get? key field = initial.get? key field

variable {r : Router} {made gone : List String} {host : String}

theorem Ledger.start (r : Router) (initial : HashTable) : Ledger r initial initial [] [] where
  placed := by simp
  kept := by simp
  cleared := by simp
  others := fun _ _ _ => rfl

/-- What can be read anywhere are the first records, up to CNAME records. -/
theorem Ledger.first (ledger : Ledger r initial table made gone) (legible : Legible initial)
    {m : RecordMap} (records : recordsIn table key field = .ok m) :
    ∃ first, recordsIn initial key field = .ok first ∧ Storable m ∧
      m.erase "cname" = first.erase "cname" := by
  by_cases touched : ∃ host ∈ made, r.slot? host = some (key, field)
  · obtain ⟨host, hh, slot⟩ := touched
    obtain ⟨first, m', before, spells, storable, same⟩ := ledger.kept host hh key field slot
    have unique : m = m' := Except.ok.inj (records.symm.trans (spells.records storable))
    exact ⟨first, before, unique ▸ storable, unique ▸ same⟩
  · have unchanged := ledger.others key field fun host hh slot => touched ⟨host, hh, slot⟩
    have before : recordsIn initial key field = .ok m :=
      (recordsIn_congr unchanged).symm.trans records
    exact ⟨m, before, legible.storable before, rfl⟩

/-- A creation is entered. -/
theorem Ledger.create (ledger : Ledger r initial table made []) (legible : Legible initial)
    {m : RecordMap} (slot : r.slot? host = some (key, field))
    (records : recordsIn table key field = .ok m) (target : String) :
    Ledger r initial (withCname table key field m target) (made ++ [host]) [] := by
  obtain ⟨first, before, storable, same⟩ := ledger.first legible records
  refine ⟨?_, ?_, by simp, ?_⟩
  · refine List.forall_mem_append.mpr ⟨ledger.placed, ?_⟩
    simpa using ⟨key, field, slot⟩
  · intro other hh k f place
    by_cases here : k = key ∧ f = field
    · obtain ⟨rfl, rfl⟩ := here
      exact Kept.create before storable same target
    · rcases List.mem_append.mp hh with hh | hh
      · exact (ledger.kept other hh k f place).frame (by simp [withCname, here])
      · rw [List.mem_singleton.mp hh, slot] at place
        cases place
        exact absurd ⟨rfl, rfl⟩ here
  · intro k f untouched
    have here : ¬ (k = key ∧ f = field) := by
      rintro ⟨rfl, rfl⟩
      exact untouched host (by simp) slot
    rw [← ledger.others k f fun other hh => untouched other (List.mem_append_left _ hh)]
    simp [withCname, here]

/-- A deletion is entered. -/
theorem Ledger.delete (ledger : Ledger r initial table made gone) (hh : host ∈ made) :
    ∃ key field m, r.slot? host = some (key, field) ∧ recordsIn table key field = .ok m ∧
      Ledger r initial (withoutCnames table key field m) made (gone ++ [host]) := by
  obtain ⟨key, field, slot⟩ := ledger.placed host hh
  obtain ⟨m, records, cleared⟩ := (ledger.kept host hh key field slot).delete
  refine ⟨key, field, m, slot, records, ledger.placed, ?_, ?_, ?_⟩
  · intro other ho k f place
    by_cases here : k = key ∧ f = field
    · obtain ⟨rfl, rfl⟩ := here
      exact cleared.kept
    · exact (ledger.kept other ho k f place).frame (get?_withoutCnames m here)
  · intro other ho k f place
    by_cases here : k = key ∧ f = field
    · obtain ⟨rfl, rfl⟩ := here
      exact cleared
    · rcases List.mem_append.mp ho with ho | ho
      · exact (ledger.cleared other ho k f place).frame (get?_withoutCnames m here)
      · rw [List.mem_singleton.mp ho, slot] at place
        cases place
        exact absurd ⟨rfl, rfl⟩ here
  · intro k f untouched
    have here : ¬ (k = key ∧ f = field) := by
      rintro ⟨rfl, rfl⟩
      exact untouched host hh slot
    rw [get?_withoutCnames m here, ledger.others k f untouched]

end CertEnrollment.Dns
