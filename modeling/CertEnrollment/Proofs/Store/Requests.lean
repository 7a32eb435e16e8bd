import CertEnrollment.Proofs.Dns.Backends
import CertEnrollment.Proofs.Dns.TableRouter
import CertEnrollment.Proofs.Turns

/-!
# Requests about different fields

Two requests to a hash store in memory that are about different fields can change places, also
when the fields are in one hash and one of the requests removes the last field of it.
-/
namespace CertEnrollment.Data.SortedMap
variable {β : Type}

theorem insert_erase_comm (m : SortedMap β) {f g : String} (other : f ≠ g) (v : β) :
    (m.erase g).insert f v = (m.insert f v).erase g := by
  refine SortedMap.ext_get? fun k => ?_
  simp only [SortedMap.get?_insert, SortedMap.get?_erase]
  grind

theorem insert_insert_comm (m : SortedMap β) {f g : String} (other : f ≠ g) (v w : β) :
    (m.insert g w).insert f v = (m.insert f v).insert g w := by
  refine SortedMap.ext_get? fun k => ?_
  simp only [SortedMap.get?_insert]
  grind

theorem erase_erase_comm (m : SortedMap β) (f g : String) :
    (m.erase g).erase f = (m.erase f).erase g := by
  refine SortedMap.ext_get? fun k => ?_
  simp only [SortedMap.get?_erase]
  grind

end CertEnrollment.Data.SortedMap

namespace CertEnrollment.Store
open Data

namespace HashTable

/-- What a hash is replaced by, unless it is empty. -/
theorem get?_hashes_put (t : HashTable) (key k : String) (h : SortedMap String) :
    (t.put key h).hashes.get? k =
      if k = key then if h.isEmpty then none else some h else t.hashes.get? k := by
  rw [put]
  by_cases gone : h.isEmpty = true <;> simp [gone]

theorem hash_put (t : HashTable) (key k : String) (h : SortedMap String) :
    (t.put key h).hash k = if k = key then h else t.hash k := by
  refine SortedMap.ext_get? fun field => ?_
  have fields := get?_put t key k field h
  rw [get?] at fields
  rw [fields]
  split <;> rfl

theorem ext_hashes {t u : HashTable} (h : ∀ key, t.hashes.get? key = u.hashes.get? key) :
    t = u := by
  cases t
  cases u
  cases SortedMap.ext_get? h
  rfl

/-- A change of one hash, such as setting a field of it or removing one. -/
def edit (t : HashTable) (key : String) (change : SortedMap String → SortedMap String) :
    HashTable :=
  t.put key (change (t.hash key))

/-- Changes can change places if those of one hash can. -/
theorem edit_comm (t : HashTable) {key k : String} (f g : SortedMap String → SortedMap String)
    (comm : k = key → ∀ h, f (g h) = g (f h)) :
    (t.edit k g).edit key f = (t.edit key f).edit k g := by
  refine ext_hashes fun l => ?_
  simp only [edit, get?_hashes_put, hash_put]
  by_cases same : k = key
  · subst same
    simp only [if_pos, comm rfl]
    split <;> rfl
  · by_cases here : l = key
    · subst here
      simp [Ne.symm same]
    · by_cases there : l = k
      · subst there
        simp [same]
      · simp [here, there]

end HashTable

namespace HashAsk

/-- A change of one field does not matter to the others. -/
theorem get?_respond_of_ne (t : HashTable) (a : HashAsk) {key field : String}
    (other : a.slot ≠ (key, field)) : (t.respond a).2.get? key field = t.get? key field := by
  have apart : ∀ k f, (k, f) ≠ (key, field) → ¬ (key = k ∧ field = f) := by
    rintro k f ne ⟨rfl, rfl⟩
    exact ne rfl
  cases a with
  | get k f => rfl
  | set k f value => exact (HashTable.get?_set ..).trans (if_neg (apart k f other))
  | delete k f => exact (HashTable.get?_delete ..).trans (if_neg (apart k f other))

/-- The order of two requests about different fields does not matter to the table. -/
theorem respond_comm (t : HashTable) {a b : HashAsk} (other : a.slot ≠ b.slot) :
    ((t.respond b).2.respond a).2 = ((t.respond a).2.respond b).2 := by
  have fields : ∀ {k f l g : String}, (k, f) ≠ (l, g) → l = k → f ≠ g := by
    rintro k f l g ne rfl rfl
    exact ne rfl
  cases a with
  | get k f => rfl
  | set k f v =>
    cases b with
    | get l g => rfl
    | set l g w =>
      exact t.edit_comm (·.insert f v) (·.insert g w) fun same h =>
        h.insert_insert_comm (fields other same) v w
    | delete l g =>
      exact t.edit_comm (·.insert f v) (·.erase g) fun same h =>
        h.insert_erase_comm (fields other same) v
  | delete k f =>
    cases b with
    | get l g => rfl
    | set l g w =>
      exact t.edit_comm (·.erase f) (·.insert g w) fun same h =>
        (h.insert_erase_comm (fields other same).symm w).symm
    | delete l g => exact t.edit_comm (·.erase f) (·.erase g) fun _ h => h.erase_erase_comm f g

/-- An answer does not depend on requests about other fields. -/
theorem respond_after (t : HashTable) {a b : HashAsk} (other : a.slot ≠ b.slot) :
    ((t.respond b).2.respond a).1 = (t.respond a).1 := by
  cases a with
  | get k f => exact congrArg Except.ok (get?_respond_of_ne t b (Ne.symm other))
  | set k f v => rfl
  | delete k f => rfl

open Dns Interaction in
theorem independent_byTable {a b : HashAsk} (other : a.slot ≠ b.slot) :
    Independent byTable a b where
  first t := respond_after t other
  second t := respond_after t (Ne.symm other)
  after t := respond_comm t other

end HashAsk
end CertEnrollment.Store
