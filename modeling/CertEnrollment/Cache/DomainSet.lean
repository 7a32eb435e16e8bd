import CertEnrollment.Data.SortedMap
import CertEnrollment.Text.Blank
import CertEnrollment.Text.Pieces

/-!
# Sets of domains

The names of a request in canonical form: trimmed, in ASCII lowercase, none empty,
strictly increasing. The set names the locks of an enrollment and its cache entry.
-/
namespace CertEnrollment.Cache
open Data Text

/-- Puts a name in its place in an increasing list, unless it is there. -/
def insertName (name : String) : List String → List String
  | [] => [name]
  | n :: rest =>
    if Precedes name n then name :: n :: rest
    else if name = n then n :: rest
    else n :: insertName name rest

theorem mem_insertName {name n : String} {names : List String} :
    n ∈ insertName name names ↔ n = name ∨ n ∈ names := by
  induction names with
  | nil => simp [insertName]
  | cons head rest ih =>
    simp only [insertName]
    split
    · simp
    · split
      · next same => simp [same]
      · simp only [List.mem_cons, ih]; exact or_left_comm

theorem pairwise_insertName {names : List String} (h : names.Pairwise Precedes) (name : String) :
    (insertName name names).Pairwise Precedes := by
  induction names with
  | nil => exact List.pairwise_cons.mpr ⟨by simp, .nil⟩
  | cons head rest ih =>
    obtain ⟨first, others⟩ := List.pairwise_cons.mp h
    simp only [insertName]
    split
    · next before =>
      refine List.pairwise_cons.mpr ⟨fun n hn => ?_, h⟩
      rcases List.mem_cons.mp hn with rfl | hn
      · exact before
      · exact before.trans (first n hn)
    · split
      · exact h
      · next notBefore different =>
        refine List.pairwise_cons.mpr ⟨fun n hn => ?_, ih others⟩
        rcases mem_insertName.mp hn with rfl | hn
        · exact Classical.not_not.mp fun notAfter =>
            different (eq_of_not_precedes notBefore notAfter)
        · exact first n hn

/-- A canonical set of names. -/
structure DomainSet where
  names : List String
  increasing : names.Pairwise Precedes

namespace DomainSet

@[ext] theorem ext {a b : DomainSet} (h : a.names = b.names) : a = b := by
  cases a; cases b; cases h; rfl

instance : DecidableEq DomainSet := fun a b =>
  if h : a.names = b.names then isTrue (ext h) else isFalse fun k => h (k ▸ rfl)

/-- The form that a name has in a set. -/
def canonical (name : String) : String := asciiLower (trim name)

/-- The sorted list of names without repetition. -/
def sort (names : List String) : List String := names.foldr insertName []

theorem mem_sort {n : String} {names : List String} : n ∈ sort names ↔ n ∈ names := by
  induction names with
  | nil => simp [sort]
  | cons head rest ih => simp [sort] at ih ⊢; simp [mem_insertName, ih]

theorem pairwise_sort (names : List String) : (sort names).Pairwise Precedes := by
  induction names with
  | nil => exact .nil
  | cons head rest ih => exact pairwise_insertName ih head

/-- The set of the names that are not empty in canonical form. -/
def ofNames (names : List String) : DomainSet :=
  ⟨sort ((names.map canonical).filter (· ≠ "")), pairwise_sort _⟩

def isEmpty (s : DomainSet) : Bool := s.names.isEmpty

/-- The names with commas between them. -/
def text (s : DomainSet) : String := join "," s.names

/-- Sets are ordered as their lists of names are. -/
def compareNames : List String → List String → Ordering
  | [], [] => .eq
  | [], _ :: _ => .lt
  | _ :: _, [] => .gt
  | a :: as, b :: bs =>
    if Precedes a b then .lt else if a = b then compareNames as bs else .gt

def order (a b : DomainSet) : Ordering := compareNames a.names b.names

end DomainSet
end CertEnrollment.Cache
