import CertEnrollment.Data.SortedMap

/-!
# Hash stores

A store of hashes, each of which maps fields to texts: the three requests that can be
made of it, and a store held in memory. An empty hash is an absent one.
-/
namespace CertEnrollment.Store
open Data

inductive HashAsk where
  | get (key field : String)
  | set (key field value : String)
  /-- Removing an absent field is no failure. -/
  | delete (key field : String)
  deriving DecidableEq, Repr

/-- The answers of a store; a failure says why. -/
abbrev HashAsk.Answer : HashAsk → Type
  | get _ _ => Except String (Option String)
  | set _ _ _ => Except String Unit
  | delete _ _ => Except String Unit

/-- A hash store in memory. -/
structure HashTable where
  hashes : SortedMap (SortedMap String)

namespace HashTable

def empty : HashTable := ⟨.empty⟩

def hash (t : HashTable) (key : String) : SortedMap String := (t.hashes.get? key).getD .empty

def get? (t : HashTable) (key field : String) : Option String := (t.hash key).get? field

/-- Replaces a hash; an empty one is dropped. -/
def put (t : HashTable) (key : String) (h : SortedMap String) : HashTable :=
  ⟨if h.isEmpty then t.hashes.erase key else t.hashes.insert key h⟩

def set (t : HashTable) (key field value : String) : HashTable :=
  t.put key ((t.hash key).insert field value)

def delete (t : HashTable) (key field : String) : HashTable :=
  t.put key ((t.hash key).erase field)

/-- How many fields a hash has. -/
def fieldCount (t : HashTable) (key : String) : Nat := (t.hash key).size

/-- The answer to a request and the store after it. It never fails. -/
def respond (t : HashTable) : (a : HashAsk) → a.Answer × HashTable
  | .get key field => (.ok (t.get? key field), t)
  | .set key field value => (.ok (), t.set key field value)
  | .delete key field => (.ok (), t.delete key field)

/-! ## Single fields -/

/-- A replaced hash has the fields of its replacement, also when that is empty. -/
theorem get?_put (t : HashTable) (key k field : String) (h : SortedMap String) :
    (t.put key h).get? k field = if k = key then h.get? field else t.get? k field := by
  by_cases gone : h.isEmpty = true
  · have no_field := SortedMap.get?_of_isEmpty gone field
    by_cases same : k = key <;> simp [put, get?, hash, gone, same, no_field]
  · by_cases same : k = key <;> simp [put, get?, hash, gone, same]

@[simp] theorem get?_set (t : HashTable) (key field value k f : String) :
    (t.set key field value).get? k f =
      if k = key ∧ f = field then some value else t.get? k f := by
  rw [set, get?_put]
  by_cases same : k = key
  · subst same
    simp [get?]
  · simp [same]

@[simp] theorem get?_delete (t : HashTable) (key field k f : String) :
    (t.delete key field).get? k f = if k = key ∧ f = field then none else t.get? k f := by
  rw [delete, get?_put]
  by_cases same : k = key
  · subst same
    simp [get?]
  · simp [same]

end HashTable
end CertEnrollment.Store
